import RobotScript.Proofs.Block.Rereading

namespace RobotScript

open Description

/-- A text has not become longer, and has kept its length only under a condition. -/
def Lessens (same : Prop) (now before : List Char) : Prop :=
  now.length ≤ before.length ∧ (now.length = before.length → same)

namespace Lessens

variable {P Q : Prop} {a b c d : List Char}

theorem of_holds (holds : P) (a : List Char) : Lessens P a a := ⟨Nat.le_refl _, fun _ => holds⟩

theorem append (first : Lessens P a b) (second : Lessens Q c d) : Lessens (P ∧ Q) (a ++ c) (b ++ d) := by
  obtain ⟨firstLe, ofFirst⟩ := first
  obtain ⟨secondLe, ofSecond⟩ := second
  rw [Lessens, List.length_append, List.length_append]
  exact ⟨by omega, fun same => ⟨ofFirst (by omega), ofSecond (by omega)⟩⟩

theorem append_left (lessens : Lessens P a b) (c : List Char) : Lessens P (c ++ a) (c ++ b) := by
  obtain ⟨le, ofSame⟩ := lessens
  rw [Lessens, List.length_append, List.length_append]
  exact ⟨by omega, fun same => ofSame (by omega)⟩

theorem imp (lessens : Lessens P a b) (implies : P → Q) : Lessens Q a b := ⟨lessens.1, implies ∘ lessens.2⟩

end Lessens

namespace Block.BlockMap

variable (map : BlockMap)

theorem operand_lessens {v : Value} (clean : v.Clean) :
    Lessens (¬v.Escaped) (map.operand v.normal).wording (map.operand v).wording := by
  by_cases escaped : v.Escaped
  · have shorter := wording_operand_normal map escaped
    exact ⟨shorter.le, fun same => absurd same shorter.ne⟩
  · rw [operand_normal clean escaped]
    exact .of_holds escaped _

theorem compare_lessens {c : Condition} (clean : ∀ v ∈ [c.left, c.right], v.Clean) :
    Lessens (∀ v ∈ [c.left, c.right], ¬v.Escaped) (map.compare (c.map Value.normal)).wording
      (map.compare c).wording := by
  rw [wording_compare, wording_compare]
  have left := map.operand_lessens (clean c.left (by simp))
  have right := map.operand_lessens (clean c.right (by simp))
  exact ((left.append right).append_left _).imp fun both => by simpa using both

/-- The wording of the condition that a default is guarded by, if there is one. -/
def guardWording (condition : Option Descriptor) : List Char := (condition.map Descriptor.wording).getD []

theorem wording_lowerDefault (value : Value) (cases : List Value) (default : Lowered) (isEmpty : Bool) :
    (map.lowerDefault value cases default isEmpty).wording =
      if isEmpty then [] else guardWording (map.differsFromAll value none cases) ++ default.wording := by
  unfold lowerDefault
  split
  · rfl
  · cases map.differsFromAll value none cases with
    | none => rfl
    | some condition => exact wording_guarded condition default

/-- The condition that a value differs from all cases does not become longer. That its values are unescaped
follows from the cases themselves. -/
theorem differsFromAll_lessens {value : Value} (cleanValue : value.Clean) {others : List Value}
    (clean : ∀ v ∈ others, v.Clean) {now before : Option Descriptor} (sameKind : now.isSome = before.isSome)
    (lessens : Lessens True (guardWording now) (guardWording before)) :
    Lessens True (guardWording (map.differsFromAll value.normal now (others.map Value.normal)))
      (guardWording (map.differsFromAll value before others)) := by
  induction others generalizing now before with
  | nil => exact lessens
  | cons other others ih =>
    obtain ⟨first, rest⟩ := List.forall_mem_cons.mp clean
    refine ih rest rfl ?_
    have differs := map.compare_lessens (c := ⟨.ne, value, other⟩) (by simp [cleanValue, first])
    match now, before with
    | none, none => exact differs.imp fun _ => trivial
    | some now, some before =>
      simp only [guardWording, Option.map_some, Option.getD_some, wording_both] at lessens ⊢
      exact ((lessens.append differs).append_left _).imp fun _ => trivial

/-- An instruction of a cleaned program that is no word with a meaning of its own. -/
structure Ordinary (node : Node) : Prop where
  clean : node.Clean
  word : ∀ token, node = .command token → Script.ofWord token.toList = .command token

/-- Nothing that an instruction has blocks for is escaped. -/
def Unescaped (node : Node) : Prop := ∀ v ∈ node.operands, ¬v.Escaped

/-- Reading back an instruction shortens its blocks, unless nothing in it is escaped. -/
def Shortens (node : Node) : Prop :=
  Ordinary node → (∀ body ∈ node.bodies, Throughout Ordinary body) →
    Lessens (Unescaped node ∧ ∀ body ∈ node.bodies, Throughout Unescaped body)
      (map.lower (node.reread Value.normal)).wording (map.lower node).wording

variable {map}

theorem lowerAll_lessens_of {nodes : List Node} (each : ∀ node ∈ nodes, map.Shortens node)
    (ordinary : Throughout Ordinary nodes) :
    Lessens (Throughout Unescaped nodes) (map.lowerAll (Node.rereadAll Value.normal nodes)).wording
      (map.lowerAll nodes).wording := by
  induction nodes with
  | nil => exact .of_holds throughout_nil _
  | cons node nodes ih =>
    obtain ⟨first, others⟩ := List.forall_mem_cons.mp each
    obtain ⟨⟨isOrdinary, inside⟩, rest⟩ := List.forall_mem_cons.mp (throughout_iff.mp ordinary)
    rw [Node.rereadAll, lowerAll, lowerAll, Lowered.wording_append, Lowered.wording_append]
    refine ((first isOrdinary inside).append (ih others (throughout_iff.mpr rest))).imp fun both => ?_
    exact throughout_iff.mpr (List.forall_mem_cons.mpr ⟨both.1, throughout_iff.mp both.2⟩)

theorem lowerCases_lessens {value : Value} (cleanValue : value.Clean) {cases : List (Value × List Node)}
    (clean : ∀ v ∈ cases.map Prod.fst, v.Clean)
    (bodies : ∀ body ∈ cases.map Prod.snd, Lessens (Throughout Unescaped body)
      (map.lowerAll (Node.rereadAll Value.normal body)).wording (map.lowerAll body).wording) :
    Lessens ((cases ≠ [] → ¬value.Escaped) ∧ (∀ v ∈ cases.map Prod.fst, ¬v.Escaped) ∧
        ∀ body ∈ cases.map Prod.snd, Throughout Unescaped body)
      (map.lowerCases value.normal (Node.rereadCases Value.normal cases)).wording
      (map.lowerCases value cases).wording := by
  induction cases with
  | nil => exact .of_holds (by simp) _
  | cons case cases ih =>
    obtain ⟨cleanFirst, cleanOthers⟩ := List.forall_mem_cons.mp clean
    obtain ⟨firstBody, otherBodies⟩ := List.forall_mem_cons.mp bodies
    have compared := map.compare_lessens (c := ⟨.eq, value, case.1⟩) (by simp [cleanValue, cleanFirst])
    have others := ih cleanOthers otherBodies
    rw [Node.rereadCases, lowerCases, lowerCases, Lowered.wording_append, Lowered.wording_append,
      wording_guarded, wording_guarded]
    refine ((compared.append firstBody).append others).imp ?_
    rintro ⟨⟨values, body⟩, -, otherValues, rest⟩
    exact ⟨fun _ => values value (by simp), List.forall_mem_cons.mpr ⟨values case.1 (by simp), otherValues⟩,
      List.forall_mem_cons.mpr ⟨body, rest⟩⟩

theorem shortens (map : BlockMap) (node : Node) : map.Shortens node := by
  induction node using Node.bodies_induction with
  | step node ih =>
    rintro ⟨⟨-, clean, -⟩, word⟩ inside
    have bodies : ∀ body ∈ node.bodies, Lessens (Throughout Unescaped body)
        (map.lowerAll (Node.rereadAll Value.normal body)).wording (map.lowerAll body).wording :=
      fun body isBody => lowerAll_lessens_of (ih body isBody) (inside body isBody)
    cases node with
    | command token =>
      rw [Node.reread, word token rfl]
      exact .of_holds (by simp [Unescaped, Node.operands, Node.values, Node.bodies]) _
    | delay ms => exact .of_holds (by simp [Unescaped, Node.operands, Node.values, Node.bodies]) _
    | leave => exact .of_holds (by simp [Unescaped, Node.operands, Node.values, Node.bodies]) _
    | assign target op value =>
      rw [Node.reread, wording_assign, wording_assign]
      refine ((map.operand_lessens (clean value (by simp [Node.values]))).append_left _).imp fun unescaped => ?_
      simpa [Unescaped, Node.operands, Node.values, Node.bodies] using unescaped
    | branch condition yes no =>
      have first := (map.compare_lessens clean).append (bodies yes (by simp [Node.bodies]))
      have second := (map.compare_lessens (c := condition.inverted) clean).append (bodies no (by simp [Node.bodies]))
      have alternative : Lessens (Throughout Unescaped no)
          (if no.isEmpty then Lowered.empty else map.guarded (map.compare (condition.map Value.normal).inverted)
            (map.lowerAll (Node.rereadAll Value.normal no))).wording
          (if no.isEmpty then Lowered.empty else
            map.guarded (map.compare condition.inverted) (map.lowerAll no)).wording := by
        cases no with
        | nil => exact .of_holds throughout_nil _
        | cons node nodes =>
          simp only [List.isEmpty_cons, Bool.false_eq_true, if_false, wording_guarded]
          exact second.imp And.right
      rw [Node.reread, lower, lower, Lowered.wording_append, Lowered.wording_append, wording_guarded,
        wording_guarded, isEmpty_rereadAll]
      refine (first.append alternative).imp ?_
      rintro ⟨⟨values, ofYes⟩, ofNo⟩
      exact ⟨values, by simpa [Node.bodies] using ⟨ofYes, ofNo⟩⟩
    | repeatWhile condition nodes =>
      rw [Node.reread, wording_repeatWhile, wording_repeatWhile]
      have body := bodies nodes (by simp [Node.bodies])
      refine (((map.compare_lessens clean).append body).append_left _).imp fun both => ⟨both.1, ?_⟩
      simpa [Node.bodies] using both.2
    | count start stop step nodes =>
      rw [Node.reread, wording_count, wording_count start stop step nodes]
      refine ((bodies nodes (by simp [Node.bodies])).append_left _).imp fun ofBody => ?_
      simpa [Unescaped, Node.operands, Node.values, Node.bodies] using ofBody
    | select value cases default =>
      obtain ⟨cleanValue, cleanCases⟩ := List.forall_mem_cons.mp clean
      have values : (Node.rereadCases Value.normal cases).map (·.1) = (cases.map Prod.fst).map Value.normal := by
        simp [Node.rereadCases_eq_map]
      have guards : Lessens True
          (guardWording (map.differsFromAll value.normal none ((cases.map Prod.fst).map Value.normal)))
          (guardWording (map.differsFromAll value none (cases.map Prod.fst))) :=
        map.differsFromAll_lessens cleanValue cleanCases rfl (.of_holds trivial _)
      have alternative : Lessens (Throughout Unescaped default)
          (map.lowerDefault value.normal ((cases.map Prod.fst).map Value.normal)
            (map.lowerAll (Node.rereadAll Value.normal default)) default.isEmpty).wording
          (map.lowerDefault value (cases.map Prod.fst) (map.lowerAll default) default.isEmpty).wording := by
        rw [wording_lowerDefault, wording_lowerDefault]
        cases default with
        | nil => exact .of_holds throughout_nil _
        | cons node nodes => exact (guards.append (bodies _ (by simp [Node.bodies]))).imp And.right
      have chosen := lowerCases_lessens cleanValue cleanCases fun body isBody =>
        bodies body (List.mem_append_left _ isBody)
      rw [Node.reread, lower, lower, Lowered.wording_append, Lowered.wording_append, values, isEmpty_rereadAll]
      refine (chosen.append alternative).imp ?_
      rintro ⟨⟨ofValue, ofCases, ofBodies⟩, ofDefault⟩
      refine ⟨?_, List.forall_mem_append.mpr ⟨ofBodies, by simpa using ofDefault⟩⟩
      -- The value is compared once for each case, so that nothing is known of it where there is none.
      cases cases with
      | nil => exact fun v member => absurd member List.not_mem_nil
      | cons case cases => exact List.forall_mem_cons.mpr ⟨ofValue (by simp), ofCases⟩

theorem lowerAll_lessens (map : BlockMap) {nodes : List Node} (ordinary : Throughout Ordinary nodes) :
    Lessens (Throughout Unescaped nodes) (map.lowerAll (Node.rereadAll Value.normal nodes)).wording
      (map.lowerAll nodes).wording :=
  lowerAll_lessens_of (fun node _ => shortens map node) ordinary

variable (map : BlockMap)

theorem placeProgram_congr {σ : Type} [Host σ] {p q : Program} (same : map.lowerProgram p = map.lowerProgram q)
    (host : σ) : map.placeProgram host p = map.placeProgram host q := by
  simp only [placeProgram, same]

/-- The script of a program is placed as the program that it is read as. -/
theorem placeScript_render {σ : Type} [Host σ] {p q : Program} (read : Script.parse p.render = .ok q) (host : σ) :
    map.placeScript host p.render = (.ok (map.placeProgram host q).1, (map.placeProgram host q).2) := by
  have trimmed : Text.trim p.chars = p.chars := by
    rw [Program.chars_eq]
    refine Text.trim_eq_self_iff.mpr ⟨fun c first => ?_, fun c last => ?_⟩
    · cases first
      decide
    · simp only [List.getLast?_append, List.getLast?_singleton, Option.some_or] at last
      cases last
      decide
  have marked : (Text.strip? "|I|" p.chars).isSome = true := by
    rw [Program.chars_eq, Text.strip?_append]
    rfl
  simp only [placeScript, Program.render, String.toList_ofList, trimmed, marked, if_true] at read ⊢
  rw [read]

end Block.BlockMap

theorem Script.ofWord_eq_command {token : String} (notLeave : token ≠ "X")
    (notDelay : ∀ ms : UInt32, token.toList ≠ 'D' :: digits ms.toNat) : ofWord token.toList = .command token := by
  have other : token.toList ≠ ['X'] := fun same => notLeave (String.toList_inj.mp same)
  rw [ofWord, if_neg other]
  cases found : delay? token.toList with
  | some ms => exact absurd (delay?_eq_some_iff.mp found) (notDelay ms)
  | none => rw [String.ofList_toList]

namespace Description

open Block BlockMap

/-- Placing a cleaned program and placing its script come to the same for all maps and workspaces exactly
where no operand is an escaped text: that one is unescaped on the way through the script only. -/
theorem placeScript_render_clean_iff {raw : Json}
    (words : ∀ k token, Within (clean raw).value.nodes k (.command token) →
      token ≠ "X" ∧ token ≠ "L" ∧ ∀ ms : UInt32, token.toList ≠ 'D' :: digits ms.toNat) :
    (∀ (map : BlockMap) (w : Workspace), map.placeScript w (clean raw).value.render =
        (.ok (map.placeProgram w (clean raw).value).1, (map.placeProgram w (clean raw).value).2)) ↔
      ∀ k node, Within (clean raw).value.nodes k node → ∀ v ∈ node.operands, ¬v.Escaped := by
  have ordinary : Throughout Ordinary (clean raw).value.nodes := by
    refine fun k node within => ⟨((clean_program raw).within k node within).1, ?_⟩
    rintro token rfl
    obtain ⟨notLeave, -, notDelay⟩ := words k token within
    exact Script.ofWord_eq_command notLeave notDelay
  have read : Script.parse (clean raw).value.render = .ok (clean raw).value.normal := by
    refine (parse_render_clean raw).trans (congrArg _ (Program.normal_resplit_eq_self_iff.mpr (.inr ?_)))
    rintro node member rfl
    have inSetup := List.mem_of_mem_drop member
    exact (words 0 "L" (.here (List.mem_append_left _ inSetup))).2.1 rfl
  constructor
  · intro agree
    have same : (builtin.placeProgram ({} : Workspace) (clean raw).value.normal).2 =
        (builtin.placeProgram ({} : Workspace) (clean raw).value).2 :=
      (Prod.mk.inj ((placeScript_render builtin read ({} : Workspace)).symm.trans (agree builtin {}))).2
    have lengths := congrArg (fun placed => (wording placed.blocks).length) same
    simp only [wording_placeProgram] at lengths
    obtain ⟨setup, loop⟩ := throughout_append.mp ordinary
    have unescaped := ((lowerAll_lessens builtin setup).append (lowerAll_lessens builtin loop)).2 lengths
    exact throughout_append.mpr unescaped
  · intro unescaped map w
    have stable : Throughout (Stable map Value.normal) (clean raw).value.nodes := fun k node within =>
      ⟨(ordinary k node within).word, fun v member =>
        operand_normal ((ordinary k node within).clean.values v (node.operands_subset member))
          (unescaped k node within v member)⟩
    rw [placeScript_render map read, Program.normal, placeProgram_congr map (lowerProgram_reread stable)]

/-- A loop that compares a text with a sensor. -/
def compared (text : String) (body : List Json) : Json :=
  .object [("loop", .array [.object [("type", .string "while"),
    ("expr", .object [("op", .string "=="), ("left", .string text), ("right", .string "TR")]),
    ("body", .array body)]])]

theorem within_loop {c : Condition} {body : List Node} {k : Nat} {node : Node}
    (within : Within [.repeatWhile c body] k node) : node = .repeatWhile c body ∨ ∃ k, Within body k node := by
  cases within with
  | here member => exact .inl (List.mem_singleton.mp member)
  | @inside _ _ _ _ k member isBody within =>
    rw [List.mem_singleton.mp member, Node.bodies, List.mem_singleton] at isBody
    exact .inr ⟨k, isBody ▸ within⟩

/-- A quoted text without an escape is the same on both ways, and so is a command. -/
theorem placeScript_render_clean_iff_quoted :
    let raw := compared "\"a b\"" [.object [("type", .string "cmd"), ("cmd", .string "ern")]]
    (clean raw).value.nodes =
        [.repeatWhile ⟨.eq, .text "\"a b\"", .symbol (.sensor .touch)⟩ [.command "ERN"]] ∧
      (∀ k token, Within (clean raw).value.nodes k (.command token) →
        token ≠ "X" ∧ token ≠ "L" ∧ ∀ ms : UInt32, token.toList ≠ 'D' :: digits ms.toNat) ∧
      ∀ (map : BlockMap) (w : Workspace), map.placeScript w (clean raw).value.render =
        (.ok (map.placeProgram w (clean raw).value).1, (map.placeProgram w (clean raw).value).2) := by
  intro raw
  have cleaned : (clean raw).value.nodes =
      [.repeatWhile ⟨.eq, .text "\"a b\"", .symbol (.sensor .touch)⟩ [.command "ERN"]] := rfl
  have inLoop : ∀ k node, Within [.command "ERN"] k node → node = .command "ERN" := by
    intro k node within
    cases within with
    | here member => exact List.mem_singleton.mp member
    | inside member isBody _ =>
      rw [List.mem_singleton.mp member] at isBody
      exact absurd isBody List.not_mem_nil
  have words : ∀ k token, Within (clean raw).value.nodes k (.command token) →
      token ≠ "X" ∧ token ≠ "L" ∧ ∀ ms : UInt32, token.toList ≠ 'D' :: digits ms.toNat := by
    intro k token within
    rw [cleaned] at within
    obtain same | ⟨k, within⟩ := within_loop within
    · cases same
    · cases inLoop k _ within
      exact ⟨by decide, by decide, fun ms same => absurd (congrArg List.head? same) (by simp)⟩
  refine ⟨cleaned, words, (placeScript_render_clean_iff words).mpr fun k node within v member escaped => ?_⟩
  rw [cleaned] at within
  obtain rfl | ⟨k, within⟩ := within_loop within
  · rcases List.mem_pair.mp member with rfl | rfl
    · exact absurd escaped.2 (by decide)
    · exact escaped
  · rw [inLoop k node within] at member
    exact absurd member List.not_mem_nil

/-- An escaped text loses its backslash on the way through the script, and keeps it else. -/
theorem placeScript_compared_escaped :
    let program := (clean (compared "\"a\\\"b\"" [])).value
    (∀ k token, Within program.nodes k (.command token) →
        token ≠ "X" ∧ token ≠ "L" ∧ ∀ ms : UInt32, token.toList ≠ 'D' :: digits ms.toNat) ∧
      (builtin.placeScript ({} : Workspace) program.render).2.block? 3 =
        some ⟨3, "custom_text_value", .ofList [("TEXT", "a\"b")], .input 2 "A"⟩ ∧
      (builtin.placeProgram ({} : Workspace) program).2.block? 3 =
        some ⟨3, "custom_text_value", .ofList [("TEXT", "a\\\"b")], .input 2 "A"⟩ ∧
      builtin.placeScript ({} : Workspace) program.render ≠
        (.ok (builtin.placeProgram ({} : Workspace) program).1, (builtin.placeProgram ({} : Workspace) program).2) := by
  intro program
  have cleaned : program =
      ⟨[.touch], [], [.repeatWhile ⟨.eq, .text "\"a\\\"b\"", .symbol (.sensor .touch)⟩ []]⟩ := rfl
  have read : Script.parse program.render =
      .ok ⟨[.touch], [], [.repeatWhile ⟨.eq, .text "a\"b", .symbol (.sensor .touch)⟩ []]⟩ := by
    have whole : program.normal.resplit = program.normal :=
      Program.normal_resplit_eq_self_iff.mpr (.inr (by simp [cleaned]))
    refine (parse_render_clean _).trans (congrArg Except.ok (whole.trans ?_))
    rw [cleaned]
    rfl
  have placed := placeScript_render builtin read ({} : Workspace)
  have direct : (builtin.placeProgram ({} : Workspace) program).2.block? 3 =
      some ⟨3, "custom_text_value", .ofList [("TEXT", "a\\\"b")], .input 2 "A"⟩ := by
    rw [cleaned]
    rfl
  refine ⟨fun k token within => ?_, by rw [placed]; rfl, direct, fun same => ?_⟩
  · rw [cleaned] at within
    obtain same | ⟨k, within⟩ := within_loop within
    · cases same
    · exact absurd within not_within_nil
  · rw [← (Prod.mk.inj (placed.symm.trans same)).2] at direct
    exact absurd direct (by decide)

end Description

end RobotScript
