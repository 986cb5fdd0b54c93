import RobotScript.Proofs.Description.Compiling
import RobotScript.Proofs.Description.Recleaning

namespace RobotScript

open Description

namespace Value

/-- A clean value stays clean when it is read back. The content of a quoted text is a part of it, and
would be printed without quotes if it were a symbol. -/
theorem Clean.normal {v : Value} (clean : v.Clean) : v.normal.Clean := by
  cases v with
  | integer n => trivial
  | bool b => trivial
  | symbol name => trivial
  | float x =>
    simp only [Value.normal]
    split
    · trivial
    · exact clean
  | text s =>
    have short := clean.2.1
    have unreserved := clean.2.2.1
    simp only [Value.normal]
    split
    · split
      · trivial
      · rename_i x _ found
        exact (canonicalFloat?_eq_some_iff.mp found).1
      · exact clean
    · split
      · rename_i quoted
        obtain ⟨trimmed, other, -⟩ := textLiteral_content rfl quoted.2.2
        have part := ((Quoted.decode_sublist (s.toList.drop 1).dropLast).trans (List.dropLast_sublist _)).trans
          (List.drop_sublist 1 s.toList)
        simp only [Value.Clean, String.toList_ofList]
        refine ⟨trimmed, part.length_le.trans short, fun c member => unreserved c (part.subset member), ?_⟩
        refine Option.eq_none_iff_forall_ne_some.mpr fun name found => other ?_
        rw [Symbol.chars_of_ofChars? found]
        exact .symbol name
      · exact clean

theorem chars_normal (v : Value) : v.normal.chars = v.chars := by
  cases v with
  | integer n => rfl
  | bool b => cases b <;> rfl
  | symbol name => rfl
  | float x =>
    simp only [normal]
    split
    · rename_i n found
      exact canonicalInt?_eq_some_iff.mp found
    · rfl
  | text s =>
    simp only [normal]
    split
    · rename_i numeric
      have literal : (Value.text s).chars = s.toList := (Verbatim.number numeric).textLiteral
      rw [literal]
      split
      · rename_i n _ found
        exact canonicalInt?_eq_some_iff.mp found
      · rename_i x _ found
        exact (canonicalFloat?_eq_some_iff.mp found).2
      · exact literal
    · split
      · rename_i quoted
        have literal : (Value.text s).chars = s.toList := (Verbatim.quoted quoted.1).textLiteral
        simp only [chars, String.toList_ofList, quoted.2.2]
        exact literal.symm
      · rfl

/-- Only a symbol is a sensor, and a text is never read back as one. -/
theorem flags_normal (v : Value) : v.normal.flags = v.flags := by
  cases v with
  | float x =>
    simp only [normal]
    split <;> rfl
  | text s =>
    simp only [normal]
    split
    · split <;> rfl
    · split <;> rfl
  | _ => rfl

end Value

namespace Node

/-- What a word turns into needs no other part of the robot than the command did. -/
theorem flags_ofWord (t : List Char) : (Script.ofWord t).flags = (commandFlag? t).toList := by
  unfold Script.ofWord
  split
  · rename_i same
    rw [same]
    rfl
  · split
    · rename_i ms found
      rw [Script.delay?_eq_some_iff.mp found]
      rfl
    · rw [flags, String.toList_ofList]

theorem flagsAll_rereadAll {f : Value → Value} {nodes : List Node}
    (each : ∀ node ∈ nodes, (node.reread f).flags = node.flags) : flagsAll (rereadAll f nodes) = flagsAll nodes := by
  induction nodes with
  | nil => rfl
  | cons node nodes ih =>
    obtain ⟨ofFirst, others⟩ := List.forall_mem_cons.mp each
    rw [rereadAll, flagsAll, flagsAll, ofFirst, ih others]

theorem flags_reread {f : Value → Value} (same : ∀ v, (f v).flags = v.flags) (node : Node) :
    (node.reread f).flags = node.flags := by
  induction node using Node.bodies_induction with
  | step node ih =>
    have inBody (nodes : List Node) (isBody : nodes ∈ node.bodies) : flagsAll (rereadAll f nodes) = flagsAll nodes :=
      flagsAll_rereadAll (ih nodes isBody)
    cases node with
    | command token => exact flags_ofWord token.toList
    | delay ms => rfl
    | leave => rfl
    | assign target op value => exact same value
    | branch condition yes no =>
      simp only [reread, flags, Condition.flags, Condition.map, same, inBody yes (by simp [bodies]),
        inBody no (by simp [bodies])]
    | repeatWhile condition nodes =>
      simp only [reread, flags, Condition.flags, Condition.map, same, inBody nodes (by simp [bodies])]
    | count start stop step nodes => exact inBody nodes (by simp [bodies])
    | select value cases default =>
      have inCases {cases : List (Value × List Node)}
          (inBody : ∀ nodes ∈ cases.map Prod.snd, flagsAll (rereadAll f nodes) = flagsAll nodes) :
          flagsCases (rereadCases f cases) = flagsCases cases := by
        induction cases with
        | nil => rfl
        | cons first cases ih =>
          obtain ⟨ofFirst, ofCases⟩ := List.forall_mem_cons.mp inBody
          simp only [rereadCases, flagsCases, same, ofFirst, ih ofCases]
      simp only [reread, flags, same, inBody default (by simp [bodies])]
      rw [inCases fun nodes member => inBody nodes (by simp [bodies, member])]

theorem Legal.reread {node : Node} (legal : node.Legal) (f : Value → Value) : (node.reread f).Legal := by
  cases node with
  | command token =>
    simp only [Node.reread, Script.ofWord]
    split
    · trivial
    · split
      · trivial
      · simpa only [Legal, String.toList_ofList] using legal
  | count start stop step body => exact legal
  | select value cases default =>
    simp only [Node.reread, Legal, rereadCases_eq_map, List.length_map]
    exact legal
  | _ => trivial

theorem Clean.normal {node : Node} (clean : node.Clean) : (node.reread Value.normal).Clean := by
  refine ⟨clean.legal.reread Value.normal, ?_, ?_⟩
  · rw [values_reread]
    exact List.forall_mem_map.mpr fun v member => (clean.values v member).normal
  · rw [bodies_reread]
    refine List.forall_mem_map.mpr fun body isBody => ?_
    rw [rereadAll_eq_map, List.length_map]
    exact clean.bodies body isBody

end Node

theorem inferFlags_rereadAll {f : Value → Value} (same : ∀ v, (f v).flags = v.flags) (setup loop : List Node) :
    inferFlags (Node.rereadAll f setup) (Node.rereadAll f loop) = inferFlags setup loop := by
  have ofList (nodes : List Node) : Node.flagsAll (Node.rereadAll f nodes) = Node.flagsAll nodes :=
    Node.flagsAll_rereadAll fun node _ => Node.flags_reread same node
  simp only [inferFlags, ofList]

namespace Program

/-- Reading a clean program back gives a clean program: no rule is lost with the kinds of its values, and
the same parts of the robot are needed. -/
theorem Clean.normal {p : Program} (clean : p.Clean) : p.normal.Clean := by
  have length (nodes : List Node) : (Node.rereadAll Value.normal nodes).length = nodes.length := by
    rw [Node.rereadAll_eq_map, List.length_map]
  have nodes : p.normal.nodes = Node.rereadAll Value.normal p.nodes := by
    simp only [Program.nodes, Program.normal, reread, Node.rereadAll_eq_map, List.map_append]
  refine ⟨fun k node within => ?_, ?_, ?_, ?_⟩
  · rw [nodes] at within
    obtain ⟨origin, stands, rfl⟩ := within_rereadAll within
    obtain ⟨clean, bound⟩ := clean.within k origin stands
    exact ⟨clean.normal, bound⟩
  · exact (length p.setup).trans_le clean.setup
  · exact (length p.loop).trans_le clean.loop
  · obtain ⟨names, flags, rule⟩ := clean.flags
    refine ⟨names, ?_, rule⟩
    rw [Program.normal, reread, inferFlags_rereadAll Value.flags_normal]
    exact flags

theorem render_normal (p : Program) : p.normal.render = p.render := by
  rw [render, Program.normal, chars_reread Value.chars_normal, render]

end Program

namespace Description

theorem compile_of_check {raw : Json} (passed : Script.check (clean raw).value.render = .ok ()) :
    compile raw = .ok ⟨(clean raw).value, (clean raw).value.render, (clean raw).warnings⟩ := by
  simp only [compile, passed]
  rfl

/-- The program that is read from a compiled script is a fixed point: cleaning its description changes
nothing and warns of nothing, and compiling that gives the same script. -/
theorem compile_parse_compile {raw : Json}
    (unambiguous : (clean raw).value.loop = [] ∨ ∀ node ∈ (clean raw).value.setup.drop 1, node ≠ .command "L") :
    ∃ compiled q, compile raw = .ok compiled ∧ Script.parse compiled.script = .ok q ∧
      clean q.toJson = ⟨q, []⟩ ∧ compile q.toJson = .ok ⟨q, compiled.script, []⟩ := by
  have isClean := (clean_program raw).normal
  have recleaned := clean_toJson isClean
  have read : Script.parse (clean raw).value.render = .ok (clean raw).value.normal := by
    rw [parse_render_clean, Program.normal_resplit_eq_self_iff.mpr unambiguous]
  refine ⟨_, _, compile_of_check (check_render_clean raw), read, recleaned, ?_⟩
  rw [compile_of_check (check_render_clean _), recleaned, Program.render_normal]

/-- A loop that compares a quoted text with an escape in it, and in which both commands are read back as
other instructions. The setup starts with the command that may not come later. -/
def quotedLoop : Json :=
  let command (token : String) : Json := .object [("type", .string "cmd"), ("cmd", .string token)]
  .object [("initFlags", .array [.string "R\"a b\""]), ("setup", .array [command "l"]),
    ("loop", .array [.object [("type", .string "while"),
      ("expr", .object [("op", .string "=="), ("left", .string "\"a\\\"b\""), ("right", .string "TR")]),
      ("body", .array [command "x", command "D5"])]])]

theorem compile_parse_compile_quotedLoop :
    (clean quotedLoop).value.loop ≠ [] ∧ (clean quotedLoop).value.setup = [.command "L"] ∧
      ∃ compiled q, compile quotedLoop = .ok compiled ∧ Script.parse compiled.script = .ok q ∧
        clean q.toJson = ⟨q, []⟩ ∧ compile q.toJson = .ok ⟨q, compiled.script, []⟩ := by
  have cleaned : (clean quotedLoop).value = ⟨[.touch, .pairing "a b"], [.command "L"],
      [.repeatWhile ⟨.eq, .text "\"a\\\"b\"", .symbol (.sensor .touch)⟩ [.command "X", .command "D5"]]⟩ := rfl
  have unambiguous : ∀ node ∈ (clean quotedLoop).value.setup.drop 1, node ≠ .command "L" := by simp [cleaned]
  exact ⟨by simp [cleaned], by rw [cleaned], compile_parse_compile (.inr unambiguous)⟩

end Description

end RobotScript
