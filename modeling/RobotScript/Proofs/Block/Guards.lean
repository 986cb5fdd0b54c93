import Mathlib.Data.Int.Order.Basic
import Mathlib.Order.Lattice
import RobotScript.Proofs.Block.Execution

namespace RobotScript.Block.BlockMap

section Conditions

variable {V : Type} [LinearOrder V]

/-- What the operator of a compare block says of two values. -/
def compares? (op : String) (a b : V) : Option Bool :=
  match op with
  | "EQ" => some (a = b)
  | "NEQ" => some (a ≠ b)
  | "LT" => some (a < b)
  | "LTE" => some (a ≤ b)
  | "GT" => some (a > b)
  | "GTE" => some (a ≥ b)
  | _ => none

theorem compares?_comparisonName (op : Comparison) (a b : V) :
    compares? (comparisonName op) a b = some (op.holds a b) := by
  cases op <;> rfl

variable (map : BlockMap) (value : Descriptor → V)

mutual

/-- Whether a condition block holds where each operand block has a value: a conjunction by its two parts, and a
comparison by its operator. No other block is a condition. -/
def holds? : Descriptor → Option Bool
  | .mk kind fields inputs _ => do
    let op ← Dictionary.get? fields "OP"
    if kind = map.structural.and ∧ op = "AND" then
      let a ← holdsInput? "A" inputs
      let b ← holdsInput? "B" inputs
      return a && b
    else if kind = map.structural.compare then
      let a ← Dictionary.get? inputs "A"
      let b ← Dictionary.get? inputs "B"
      compares? op (value a) (value b)
    else none

def holdsInput? (name : String) {bound : Option String} : Ascending Descriptor bound → Option Bool
  | .nil => none
  | .cons other _ d inputs => if other = name then holds? d else holdsInput? name inputs

end

theorem holdsInput?_eq (name : String) {bound : Option String} (inputs : Ascending Descriptor bound) :
    map.holdsInput? value name inputs = inputs.toList.lookup name >>= map.holds? value := by
  induction inputs with
  | nil => rfl
  | cons other _ d inputs ih =>
    rw [holdsInput?, Ascending.toList, List.lookup_cons]
    by_cases same : other = name
    · simp [same]
    · rw [if_neg same, ih, beq_false_of_ne (Ne.symm same)]

/-- What an `if` block says: whether its guard holds, and the chain that it guards. -/
def clause (d : Descriptor) : Option Bool × List Descriptor :=
  (d.inputs.get? "IF0" >>= map.holds? value, (d.statements.get? "DO0").getD [])

theorem holds?_compare (c : Condition) : map.holds? value (map.compare c) =
    some (c.op.holds (value (map.operand c.left)) (value (map.operand c.right))) := by
  have noConjunction : ¬(map.structural.compare = map.structural.and ∧ comparisonName c.op = "AND") := by
    rintro ⟨-, name⟩
    cases op : c.op <;> simp [op, comparisonName] at name
  change map.holds? value (.mk map.structural.compare (map.compare c).fields (map.compare c).inputs .nil) = _
  rw [holds?]
  change (if _ then _ else _) = _
  rw [if_neg noConjunction, if_pos rfl]
  exact compares?_comparisonName c.op _ _

theorem holds?_both {a b : Descriptor} {first second : Bool} (ofFirst : map.holds? value a = some first)
    (ofSecond : map.holds? value b = some second) : map.holds? value (map.both a b) = some (first && second) := by
  have inputs : (map.both a b).inputs.toList = [("A", a), ("B", b)] := rfl
  have left : map.holdsInput? value "A" (map.both a b).inputs = some first := by
    rw [holdsInput?_eq, inputs]
    exact ofFirst
  have right : map.holdsInput? value "B" (map.both a b).inputs = some second := by
    rw [holdsInput?_eq, inputs]
    exact ofSecond
  change map.holds? value (.mk map.structural.and (map.both a b).fields (map.both a b).inputs .nil) = _
  rw [holds?]
  change (if _ then _ else _) = _
  rw [if_pos ⟨rfl, rfl⟩, left, right]
  rfl

/-- A conjunction that grows to the left holds where all its parts do. -/
theorem holds?_conjunction (v : Value) (others : List Value) {previous : Descriptor} {before : Bool}
    (ofPrevious : map.holds? value previous = some before) :
    map.holds? value (others.foldl (fun previous other => map.both previous (map.compare ⟨.ne, v, other⟩)) previous) =
      some (before && others.all fun other => value (map.operand v) ≠ value (map.operand other)) := by
  induction others generalizing previous before with
  | nil => simpa using ofPrevious
  | cons other others ih =>
    rw [List.foldl_cons, ih (map.holds?_both value ofPrevious (map.holds?_compare value _)), List.all_cons,
      Bool.and_assoc]
    rfl

theorem clause_guarded {condition : Descriptor} {holds : Bool} (ofCondition : map.holds? value condition = some holds)
    (body : Lowered) : (map.guarded condition body).blocks.map (map.clause value) = [(some holds, body.blocks)] := by
  have said (statements : Dictionary (List Descriptor)) :
      map.clause value (.mk map.structural.branch .nil (Dictionary.insert "IF0" condition .nil) statements) =
        (some holds, (statements.get? "DO0").getD []) :=
    congrArg (·, _) ofCondition
  cases chain : body.blocks with
  | nil =>
    rw [guarded, chain]
    exact congrArg (fun clause => [clause]) (said .nil)
  | cons first others =>
    rw [guarded, chain]
    exact congrArg (fun clause => [clause]) (said (Dictionary.insert "DO0" (first :: others) .nil))

/-- The guards of the cases: each compares the selected value with that of its case. -/
def caseGuards (v : Value) (cases : List (Value × List Node)) : List Bool :=
  cases.map fun case => value (map.operand v) = value (map.operand case.1)

theorem clause_lowerCases (v : Value) (cases : List (Value × List Node)) :
    (map.lowerCases v cases).blocks.map (map.clause value) =
      List.zipWith (fun guard case => (some guard, (map.lowerAll case.2).blocks))
        (map.caseGuards value v cases) cases := by
  induction cases with
  | nil => rfl
  | cons case cases ih =>
    rw [lowerCases, blocks_append, List.map_append, ih, map.clause_guarded value (map.holds?_compare value _)]
    rfl

theorem clause_lowerDefault (v first : Value) (others : List Value) (default : Lowered) :
    (map.lowerDefault v (first :: others) default false).blocks.map (map.clause value) =
      [(some ((first :: others).all fun other => value (map.operand v) ≠ value (map.operand other)),
        default.blocks)] := by
  have guard := map.holds?_conjunction value v others (map.holds?_compare value ⟨.ne, v, first⟩)
  rw [lowerDefault, differsFromAll_cons]
  exact map.clause_guarded value guard default

theorem clause_select (v : Value) {cases : List (Value × List Node)} {default : List Node} (someCase : cases ≠ [])
    (someDefault : default ≠ []) :
    (map.lower (.select v cases default)).blocks.map (map.clause value) =
      List.zipWith (fun guard case => (some guard, (map.lowerAll case.2).blocks)) (map.caseGuards value v cases)
          cases ++
        [(some ((map.caseGuards value v cases).all (!·)), (map.lowerAll default).blocks)] := by
  obtain ⟨case, cases, rfl⟩ := List.exists_cons_of_ne_nil someCase
  have otherwise := map.clause_lowerDefault value v case.1 (cases.map Prod.fst) (map.lowerAll default)
  rw [← List.map_cons, List.all_map] at otherwise
  rw [lower, blocks_append, List.map_append, clause_lowerCases, List.isEmpty_eq_false_iff.mpr someDefault,
    List.map_cons, ← List.map_cons, otherwise, caseGuards, List.all_map]
  simp only [Function.comp_def, ne_eq, decide_not]

theorem clause_branch (c : Condition) (yes : List Node) {no : List Node} (someNo : no ≠ []) :
    (map.lower (.branch c yes no)).blocks.map (map.clause value) =
      [(some (c.op.holds (value (map.operand c.left)) (value (map.operand c.right))), (map.lowerAll yes).blocks),
        (some (!c.op.holds (value (map.operand c.left)) (value (map.operand c.right))), (map.lowerAll no).blocks)] := by
  have inverse := map.holds?_compare value c.inverted
  rw [Condition.inverted, c.op.holds_inverse fun _ _ => not_le] at inverse
  rw [lower, blocks_append, List.map_append, map.clause_guarded value (map.holds?_compare value c),
    if_neg (by simpa using someNo), Condition.inverted, map.clause_guarded value inverse]
  rfl

/-- The guards of a selection with a default share out all values: that of a case holds where the selected value is the
one of the case, and that of the default where no other does. Of the two guards of a branch just one holds. -/
theorem guards_exclusive :
    (∀ v cases default, cases ≠ [] → default ≠ [] → ∃ guards otherwise,
      (map.lower (.select v cases default)).blocks.map (map.clause value) =
        List.zipWith (fun guard case => (some guard, (map.lowerAll case.2).blocks)) guards cases ++
          [(some otherwise, (map.lowerAll default).blocks)] ∧
      List.Forall₂ (fun guard case => guard = true ↔ value (map.operand v) = value (map.operand case.1))
        guards cases ∧
      (otherwise = true ↔ true ∉ guards)) ∧
    ∀ c yes no, no ≠ [] → ∃ first second,
      (map.lower (.branch c yes no)).blocks.map (map.clause value) =
        [(some first, (map.lowerAll yes).blocks), (some second, (map.lowerAll no).blocks)] ∧
      (first = true ↔ c.op.holds (value (map.operand c.left)) (value (map.operand c.right)) = true) ∧
      (second = true ↔ first = false) := by
  refine ⟨fun v cases default someCase someDefault => ?_, fun c yes no someNo => ?_⟩
  · refine ⟨_, _, map.clause_select value v someCase someDefault, ?_, ?_⟩
    · rw [caseGuards, List.forall₂_map_left_iff, List.forall₂_same]
      exact fun case _ => decide_eq_true_iff
    · simp only [List.all_eq_true, Bool.not_eq_true']
      exact ⟨fun all member => absurd (all true member) (by decide), fun none guard member =>
        Bool.eq_false_iff.mpr fun holds => none (holds ▸ member)⟩
  · exact ⟨_, _, map.clause_branch value c yes someNo, Iff.rfl, by simp⟩

end Conditions

/-- The values of operand blocks while every sensor reads two. -/
def dimmed (d : Descriptor) : Int := (builtin.operand? (fun _ => 2) (fun _ => 0) d).getD 0

/-- Of three cases the second is chosen, and a reading of two is not over two. -/
theorem guards_exclusive_dimmed :
    [(Value.integer 1, []), (.integer 2, [Node.leave]), (.integer 3, [.delay 5])] ≠ [] ∧
      [Node.command "EAF"] ≠ [] ∧
      (builtin.lower (.select (.symbol (.sensor .light))
          [(.integer 1, []), (.integer 2, [.leave]), (.integer 3, [.delay 5])] [.command "EAF"])).blocks.map
        (builtin.clause dimmed) =
        [(some false, []), (some true, (builtin.lower .leave).blocks), (some false, (builtin.lower (.delay 5)).blocks),
          (some false, (builtin.lower (.command "EAF")).blocks)] ∧
      [Node.leave] ≠ [] ∧
      (builtin.lower (.branch ⟨.gt, .symbol (.sensor .light), .integer 2⟩ [] [.leave])).blocks.map
        (builtin.clause dimmed) = [(some false, []), (some true, (builtin.lower .leave).blocks)] := by
  obtain ⟨select, branch⟩ := builtin.guards_exclusive dimmed
  refine ⟨List.cons_ne_nil _ _, List.cons_ne_nil _ _, ?_, List.cons_ne_nil _ _, ?_⟩
  · obtain ⟨guards, otherwise, clauses, ofCases, ofDefault⟩ := select (.symbol (.sensor .light))
      [(.integer 1, []), (.integer 2, [.leave]), (.integer 3, [.delay 5])] [.command "EAF"]
      (List.cons_ne_nil _ _) (List.cons_ne_nil _ _)
    rcases ofCases with _ | ⟨one, _ | ⟨two, _ | ⟨three, _ | _⟩⟩⟩
    have notOne := Bool.eq_false_iff.mpr fun holds => absurd (one.mp holds) (by decide)
    have isTwo := two.mpr (by decide)
    have notThree := Bool.eq_false_iff.mpr fun holds => absurd (three.mp holds) (by decide)
    subst notOne isTwo notThree
    have notOther : otherwise = false := Bool.eq_false_iff.mpr fun holds => absurd (ofDefault.mp holds) (by simp)
    subst notOther
    exact clauses
  · obtain ⟨first, second, clauses, ofYes, ofNo⟩ :=
      branch ⟨.gt, .symbol (.sensor .light), .integer 2⟩ [] [.leave] (List.cons_ne_nil _ _)
    have notFirst : first = false := Bool.eq_false_iff.mpr fun holds => absurd (ofYes.mp holds) (by decide)
    subst notFirst
    have isSecond := ofNo.mpr rfl
    subst isSecond
    exact clauses

end RobotScript.Block.BlockMap
