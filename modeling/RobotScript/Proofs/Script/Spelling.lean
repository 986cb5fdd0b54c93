import Mathlib.Data.List.Forall2
import RobotScript.Proofs.Script.Literal
import RobotScript.Script.Reader

namespace RobotScript.Script

/-- Tokens with a bar in front of each. -/
def barred (ts : List (List Char)) : List Char := ts.flatMap ('|' :: ·)

theorem barred_cons (t : List Char) (ts : List (List Char)) : barred (t :: ts) = '|' :: (t ++ barred ts) := rfl

theorem barred_append (ts us : List (List Char)) : barred (ts ++ us) = barred ts ++ barred us :=
  List.flatMap_append

theorem join_cons (t : List Char) (ts : List (List Char)) : join (t :: ts) = t ++ barred ts := by
  induction ts generalizing t with
  | nil => simp [join, barred]
  | cons u us ih =>
    rw [barred_cons, ← ih u, join, List.intercalate_cons_cons]
    simp [join]

theorem join_singleton (t : List Char) : join [t] = t := by simp [join_cons, barred]

theorem join_cons_cons (t u : List Char) (ts : List (List Char)) :
    join (t :: u :: ts) = t ++ '|' :: join (u :: ts) := by
  rw [join_cons, join_cons, barred_cons]

theorem length_le_barred (ts : List (List Char)) : ts.length ≤ (barred ts).length := by
  induction ts with
  | nil => simp
  | cons t ts ih =>
    simp only [barred_cons, List.length_cons, List.length_append]
    omega

theorem length_le_join (ts : List (List Char)) : ts.length ≤ (join ts).length + 1 := by
  cases ts with
  | nil => simp
  | cons t ts =>
    have tail := length_le_barred ts
    simp only [join_cons, List.length_cons, List.length_append]
    omega

/-- A text and the value that it is read as. A number and a quoted literal each have one reading, which
keeps the spelling where printing the decoded value would change it. -/
inductive SpellsValue : List Char → Value → Prop
  | symbol (name : Symbol) : SpellsValue name.chars (.symbol name)
  | number {t : List Char} : isNumeric t = true → SpellsValue t (readNumber t)
  | quoted {t : List Char} : Quoted.isWhole t = true → SpellsValue t (readQuoted t)

theorem SpellsValue.verbatim {t : List Char} {v : Value} (spells : SpellsValue t v) : Verbatim t := by
  cases spells with
  | symbol name => exact .symbol name
  | number numeric => exact .number numeric
  | quoted whole => exact .quoted whole

theorem exists_spellsValue {t : List Char} (verbatim : Verbatim t) : ∃ v, SpellsValue t v := by
  cases verbatim with
  | symbol name => exact ⟨_, .symbol name⟩
  | number numeric => exact ⟨_, .number numeric⟩
  | quoted whole => exact ⟨_, .quoted whole⟩

theorem chars_readNumber {t : List Char} (numeric : isNumeric t = true) : (readNumber t).chars = t := by
  unfold readNumber
  split
  · rename_i n found
    exact eq_of_beq (Option.filter_eq_some_iff.mp found).2
  · split
    · rename_i x found
      exact eq_of_beq (Bool.and_eq_true_iff.mp (Option.filter_eq_some_iff.mp found).2).2
    · simp only [Value.chars, String.toList_ofList]
      exact (Verbatim.number numeric).textLiteral

theorem chars_readQuoted {t : List Char} (whole : Quoted.isWhole t = true) : (readQuoted t).chars = t := by
  unfold readQuoted
  dsimp only
  split
  · rename_i same
    simp only [Value.chars, String.toList_ofList]
    exact same.2
  · simp only [Value.chars, String.toList_ofList]
    exact (Verbatim.quoted whole).textLiteral

/-- Printing what was read gives the text back. -/
theorem SpellsValue.chars_eq {t : List Char} {v : Value} (spells : SpellsValue t v) : v.chars = t := by
  cases spells with
  | symbol name => rfl
  | number numeric => exact chars_readNumber numeric
  | quoted whole => exact chars_readQuoted whole

inductive SpellsCondition : List Char → Condition → Prop
  | mk (op : Comparison) {l r : List Char} {left right : Value} :
      SpellsValue l left → SpellsValue r right →
      SpellsCondition ('O' :: op.wire.toList ++ ',' :: l ++ ',' :: r) ⟨op, left, right⟩

theorem SpellsCondition.chars_eq {t : List Char} {c : Condition} (spells : SpellsCondition t c) :
    c.chars = t := by
  cases spells with
  | mk op left right => simp only [Condition.chars, left.chars_eq, right.chars_eq]

/-- A bound or a step of a counted loop: here several spellings, such as `007`, give one number. -/
structure SpellsInt (t : List Char) (n : Int32) : Prop where
  shape : ∃ ds, (∀ c ∈ ds, isDigit c = true) ∧ (t = ds ∨ t = '-' :: ds)
  value : readInt32? t = some n

theorem spellsInt_intDigits (n : Int32) : SpellsInt (intDigits n.toInt) n where
  shape := by
    refine ⟨digits n.toInt.natAbs, fun _ => isDigit_of_mem_digits, ?_⟩
    unfold intDigits
    split
    · exact .inr rfl
    · exact .inl rfl
  value := readInt32?_intDigits n

theorem delay?_eq_some_iff {t : List Char} {ms : UInt32} :
    delay? t = some ms ↔ t = 'D' :: digits ms.toNat := by
  constructor
  · intro found
    unfold delay? at found
    split at found
    · rw [eq_of_beq (Option.filter_eq_some_iff.mp found).2]
    · simp at found
  · rintro rfl
    exact Option.filter_eq_some_iff.mpr ⟨readUInt32?_digits ms, beq_self_eq_true _⟩

/-- The instruction that a word stands for. -/
def ofWord (t : List Char) : Node :=
  if t = ['X'] then .leave
  else match delay? t with
    | some ms => .delay ms
    | none => .command (String.ofList t)

theorem chars_ofWord (t : List Char) : (ofWord t).chars = t := by
  unfold ofWord
  split
  · rename_i same
    rw [same, Node.chars]
  · split
    · rename_i ms found
      rw [delay?_eq_some_iff.mp found, Node.chars]
    · rw [Node.chars, String.toList_ofList]

inductive SpellsAssign : List Char → Node → Prop
  | mk (target : Slot) (op : AssignOp) {v : List Char} {value : Value} : SpellsValue v value →
      SpellsAssign ("G(".toList ++ target.type.code :: ',' :: digits target.index ++
        ',' :: op.symbol.toList ++ ',' :: v ++ [')']) (.assign target op value)

/-- The cases of a `select`, given how a body is spelled. -/
inductive SpellsCases (body : List Char → List Node → Prop) :
    List Char → List (Value × List Node) → Prop
  | nil : SpellsCases body [] []
  | cons {v b t : List Char} {value : Value} {nodes : List Node} {cases : List (Value × List Node)} :
      SpellsValue v value → body b nodes → SpellsCases body t cases →
      SpellsCases body ('(' :: v ++ ')' :: b ++ ' ' :: t) ((value, nodes) :: cases)

/-- A token, given how a body is spelled. -/
inductive SpellsNode (body : List Char → List Node → Prop) : List Char → Node → Prop
  | word {t : List Char} : t ≠ [] → (∀ c ∈ t, isCommandChar c = true) → SpellsNode body t (ofWord t)
  | assign {t : List Char} {node : Node} : SpellsAssign t node → SpellsNode body t node
  | branch {c y n : List Char} {condition : Condition} {yes no : List Node} :
      SpellsCondition c condition → body y yes → body n no →
      SpellsNode body ("C(".toList ++ c ++ ')' :: y ++ n) (.branch condition yes no)
  | repeatWhile {c b : List Char} {condition : Condition} {nodes : List Node} :
      SpellsCondition c condition → body b nodes →
      SpellsNode body ("W(".toList ++ c ++ ')' :: b) (.repeatWhile condition nodes)
  | count {i j k b : List Char} {start stop step : Int32} {nodes : List Node} :
      SpellsInt i start → SpellsInt j stop → SpellsInt k step → step ≠ 0 → body b nodes →
      SpellsNode body ("F(".toList ++ i ++ '-' :: j ++ ',' :: k ++ ')' :: b)
        (.count start stop step nodes)
  | select {v t d : List Char} {value : Value} {cases : List (Value × List Node)} {default : List Node} :
      SpellsValue v value → SpellsCases body t cases → body d default →
      SpellsNode body ("K(".toList ++ v ++ ", ".toList ++ t ++ "(D)".toList ++ d ++ [')'])
        (.select value cases default)

/-- A body, given how its tokens are spelled. -/
inductive SpellsBody (token : List Char → Node → Prop) : List Char → List Node → Prop
  | mk {ts : List (List Char)} {nodes : List Node} : List.Forall₂ token ts nodes →
      SpellsBody token (body ts) nodes

/-- A token in which bodies nest at most `depth` deep. -/
def Spells : Nat → List Char → Node → Prop
  | 0 => SpellsNode fun _ _ => False
  | depth + 1 => SpellsNode (SpellsBody (Spells depth))

/-- The bodies in a token with room for bodies `depth` deep. -/
def SpellsIn : Nat → List Char → List Node → Prop
  | 0 => fun _ _ => False
  | depth + 1 => SpellsBody (Spells depth)

theorem spells_eq (depth : Nat) : Spells depth = SpellsNode (SpellsIn depth) := by
  cases depth <;> rfl

end RobotScript.Script
