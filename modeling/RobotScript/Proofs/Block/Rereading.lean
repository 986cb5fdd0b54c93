import RobotScript.Proofs.Block.Wording
import RobotScript.Proofs.Description.NormalForm

namespace RobotScript

open Description

/-- A text that is the quoted form of another, with a backslash in it that reading takes out. -/
def Value.Escaped : Value → Prop
  | .text s => textLiteral (Quoted.decode (s.toList.drop 1).dropLast) = s.toList ∧ '\\' ∈ s.toList
  | _ => False

/-- The values of an instruction that there are blocks for. A choice without cases compares nothing. -/
def Node.operands : Node → List Value
  | .select _ [] _ => []
  | node => node.values

theorem Node.operands_subset (node : Node) : node.operands ⊆ node.values := by
  unfold operands
  split
  · exact List.nil_subset _
  · exact fun _ member => member

namespace Block.BlockMap

variable {map : BlockMap}

/-- A text block. -/
def written (map : BlockMap) (s : List Char) : Descriptor :=
  (Descriptor.new map.value.text).withField "TEXT" (String.ofList s)

theorem text_encode (content : List Char) :
    map.text ('"' :: Quoted.encode content ++ ['"']) = map.written (Quoted.encode content) := by
  have whole := Quoted.isWhole_encode content
  have notNumeric : isNumeric ('"' :: Quoted.encode content ++ ['"']) = false := by
    refine Bool.eq_false_iff.mpr fun numeric => ?_
    exact absurd (isPlainChar_of_isNumeric numeric '"' (by simp)) (by decide)
  simp only [text, trim_of_isWhole whole, notNumeric, whole, Bool.false_eq_true, if_false, if_true, written]
  simp

theorem text_of_not_verbatim {content : List Char} (trimmed : Text.trim content = content)
    (other : ¬Verbatim content) : map.text content = map.written content := by
  have notNumeric : ¬isNumeric content = true := fun numeric => other (.number numeric)
  have notWhole : ¬Quoted.isWhole content = true := fun whole => other (.quoted whole)
  simp only [text, trimmed, if_neg notNumeric, if_neg notWhole, written]

/-- The two sides of a text that is the quoted form of another. -/
theorem text_of_quoted {s content : List Char} (decoded : Quoted.decode (s.drop 1).dropLast = content)
    (printed : textLiteral content = s) :
    map.text s = map.written (Quoted.encode content) ∧ map.text content = map.written content := by
  obtain ⟨trimmed, other, shape⟩ := textLiteral_content decoded printed
  exact ⟨shape ▸ text_encode content, text_of_not_verbatim trimmed other⟩

/-- Only an escaped value gets another block by being read back. -/
theorem operand_normal {v : Value} (clean : v.Clean) (plain : ¬v.Escaped) : map.operand v.normal = map.operand v := by
  cases v with
  | integer n => rfl
  | bool b => cases b <;> rfl
  | symbol name => rfl
  | float x =>
    simp only [Value.normal]
    split
    · rename_i n found
      rw [operand, canonicalInt?_eq_some_iff.mp found, operand]
    · rfl
  | text s =>
    simp only [Value.normal]
    split
    · rename_i numeric
      have number : map.operand (.text s) = map.number s.toList := by
        simp only [operand, text, clean.1, numeric, if_true]
      split
      · rename_i n _ found
        rw [number, operand, canonicalInt?_eq_some_iff.mp found]
      · rename_i x _ found
        rw [number, operand, (canonicalFloat?_eq_some_iff.mp found).2]
      · rfl
    · split
      · rename_i quoted
        obtain ⟨-, -, shape⟩ := textLiteral_content rfl quoted.2.2
        obtain ⟨outer, inner⟩ := @text_of_quoted map _ _ rfl quoted.2.2
        have unescaped : '\\' ∉ Quoted.encode (Quoted.decode (s.toList.drop 1).dropLast) := fun escaped =>
          plain ⟨quoted.2.2, by rw [shape]; exact List.mem_cons_of_mem _ (List.mem_append_left _ escaped)⟩
        rw [operand, operand, String.toList_ofList, outer, inner, Quoted.encode_of_not_mem unescaped]
      · rfl

theorem wording_written (s : List Char) : (map.written s).wording = s := by
  rw [Descriptor.wording_of_inputs [("TEXT", String.ofList s)] [] rfl rfl rfl]
  simp

theorem wording_operand_normal (map : BlockMap) {v : Value} (escaped : v.Escaped) :
    (map.operand v.normal).wording.length < (map.operand v).wording.length := by
  cases v with
  | text s =>
    obtain ⟨printed, backslash⟩ := escaped
    obtain ⟨-, -, shape⟩ := textLiteral_content rfl printed
    obtain ⟨outer, inner⟩ := @text_of_quoted map _ _ rfl printed
    have notNumeric : ¬isNumeric s.toList = true := fun numeric =>
      absurd (isPlainChar_of_isNumeric numeric '\\' backslash) (by decide)
    have quoted : Quoted.isWhole s.toList ∧ s.toList.head? = some '"' := by
      rw [shape]
      exact ⟨Quoted.isWhole_encode _, rfl⟩
    have normal : (Value.text s).normal = .text (String.ofList (Quoted.decode (s.toList.drop 1).dropLast)) := by
      simp only [Value.normal]
      rw [if_neg notNumeric, if_pos ⟨quoted.1, quoted.2, printed⟩]
    have inside : '\\' ∈ Quoted.encode (Quoted.decode (s.toList.drop 1).dropLast) := by
      rw [shape] at backslash
      simpa using backslash
    rw [normal, operand, operand, String.toList_ofList, outer, inner, wording_written, wording_written]
    exact Quoted.length_lt_encode inside
  | _ => exact escaped.elim

/-- An instruction that reading back changes in nothing that blocks show. -/
structure Stable (map : BlockMap) (f : Value → Value) (node : Node) : Prop where
  word : ∀ token, node = .command token → Script.ofWord token.toList = .command token
  operands : ∀ v ∈ node.operands, map.operand (f v) = map.operand v

variable {f : Value → Value}

theorem compare_map {c : Condition} (same : ∀ v ∈ [c.left, c.right], map.operand (f v) = map.operand v) :
    map.compare (c.map f) = map.compare c := by
  simp only [compare, Condition.map, same c.left (by simp), same c.right (by simp)]

theorem differsFromAll_map {value : Value} (sameValue : map.operand (f value) = map.operand value)
    {others : List Value} (same : ∀ v ∈ others, map.operand (f v) = map.operand v) (condition : Option Descriptor) :
    map.differsFromAll (f value) condition (others.map f) = map.differsFromAll value condition others := by
  induction others generalizing condition with
  | nil => rfl
  | cons other others ih =>
    obtain ⟨first, rest⟩ := List.forall_mem_cons.mp same
    simp only [List.map_cons, differsFromAll, compare, first, sameValue]
    exact ih rest _

theorem lowerAll_rereadAll_of {nodes : List Node}
    (each : ∀ node ∈ nodes, map.lower (node.reread f) = map.lower node) :
    map.lowerAll (Node.rereadAll f nodes) = map.lowerAll nodes := by
  induction nodes with
  | nil => rfl
  | cons node nodes ih =>
    obtain ⟨first, others⟩ := List.forall_mem_cons.mp each
    rw [Node.rereadAll, lowerAll, lowerAll, first, ih others]

theorem lowerCases_reread_of {value : Value} (sameValue : map.operand (f value) = map.operand value)
    {cases : List (Value × List Node)} (same : ∀ v ∈ cases.map Prod.fst, map.operand (f v) = map.operand v)
    (each : ∀ body ∈ cases.map Prod.snd, map.lowerAll (Node.rereadAll f body) = map.lowerAll body) :
    map.lowerCases (f value) (Node.rereadCases f cases) = map.lowerCases value cases := by
  induction cases with
  | nil => rfl
  | cons case cases ih =>
    obtain ⟨first, others⟩ := List.forall_mem_cons.mp same
    obtain ⟨firstBody, otherBodies⟩ := List.forall_mem_cons.mp each
    simp only [Node.rereadCases, lowerCases, compare, first, sameValue, firstBody, ih others otherBodies]

theorem isEmpty_rereadAll (nodes : List Node) : (Node.rereadAll f nodes).isEmpty = nodes.isEmpty := by
  cases nodes <;> rfl

theorem lower_reread {node : Node} (stable : Stable map f node)
    (inside : ∀ body ∈ node.bodies, Throughout (Stable map f) body) : map.lower (node.reread f) = map.lower node := by
  induction node using Node.bodies_induction with
  | step node ih =>
    have bodies : ∀ body ∈ node.bodies, map.lowerAll (Node.rereadAll f body) = map.lowerAll body := by
      intro body isBody
      refine lowerAll_rereadAll_of fun inner member => ?_
      obtain ⟨first, others⟩ := throughout_iff.mp (inside body isBody) inner member
      exact ih body isBody inner member first others
    obtain ⟨word, operands⟩ := stable
    cases node with
    | command token => rw [Node.reread, word token rfl]
    | delay ms => rfl
    | assign target op value =>
      simp only [Node.reread, lower, operands value (by simp [Node.operands, Node.values])]
    | branch condition yes no =>
      have inverted : map.compare (condition.map f).inverted = map.compare condition.inverted :=
        compare_map (c := condition.inverted) operands
      simp only [Node.reread, lower, isEmpty_rereadAll, compare_map operands, inverted,
        bodies yes (by simp [Node.bodies]), bodies no (by simp [Node.bodies])]
    | repeatWhile condition nodes =>
      simp only [Node.reread, lower, compare_map operands, bodies nodes (by simp [Node.bodies])]
    | count start stop step nodes => simp only [Node.reread, lower, bodies nodes (by simp [Node.bodies])]
    | select value cases default =>
      have ofDefault := bodies default (by simp [Node.bodies])
      have ofCases : ∀ body ∈ cases.map Prod.snd, map.lowerAll (Node.rereadAll f body) = map.lowerAll body :=
        fun body isBody => bodies body (List.mem_append_left _ isBody)
      cases cases with
      | nil => simp only [Node.reread, Node.rereadCases, lower, isEmpty_rereadAll, ofDefault]; rfl
      | cons case cases =>
        obtain ⟨sameValue, same⟩ := List.forall_mem_cons.mp operands
        have values : (Node.rereadCases f (case :: cases)).map (·.1) = ((case :: cases).map Prod.fst).map f := by
          simp [Node.rereadCases_eq_map]
        simp only [Node.reread, lower, lowerDefault, isEmpty_rereadAll, values, ofDefault,
          lowerCases_reread_of sameValue same ofCases, differsFromAll_map sameValue same]
    | leave => rfl

theorem lowerAll_rereadAll {nodes : List Node} (stable : Throughout (Stable map f) nodes) :
    map.lowerAll (Node.rereadAll f nodes) = map.lowerAll nodes := by
  refine lowerAll_rereadAll_of fun node member => ?_
  obtain ⟨first, others⟩ := throughout_iff.mp stable node member
  exact lower_reread first others

theorem lowerProgram_reread {p : Program} (stable : Throughout (Stable map f) p.nodes) :
    map.lowerProgram (p.reread f) = map.lowerProgram p := by
  obtain ⟨setup, loop⟩ := throughout_append.mp stable
  simp only [lowerProgram, Program.reread, lowerAll_rereadAll setup, lowerAll_rereadAll loop]

end Block.BlockMap

end RobotScript
