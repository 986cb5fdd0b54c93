import RobotScript.Proofs.Script.Sections
import RobotScript.Script.Check

namespace RobotScript.Script

theorem segmentsUpTo_congr {a b : Nat} {s : List Char} (left : s.length ≤ a) (right : s.length ≤ b) :
    segmentsUpTo a s = segmentsUpTo b s := by
  induction a generalizing b s with
  | zero =>
    cases List.length_eq_zero_iff.mp (Nat.le_zero.mp left)
    cases b <;> rfl
  | succ a ih =>
    cases s with
    | nil => cases b <;> rfl
    | cons c s =>
      obtain ⟨b, rfl⟩ : ∃ k, b = k + 1 := Nat.exists_eq_succ_of_ne_zero (by simp at right; omega)
      simp only [List.length_cons, Nat.add_le_add_iff_right] at left right
      simp only [segmentsUpTo]
      split
      · split
        · rename_i literal rest found
          -- a literal has a quote at least, so less is left
          obtain ⟨⟨quote, inner, _, _, rfl⟩, split⟩ := Quoted.split?_eq_some_iff.mp found
          have shorter := congrArg List.length split
          simp only [List.length_cons, List.length_append] at shorter
          rw [ih (by omega : rest.length ≤ a) (by omega : rest.length ≤ b)]
        · rfl
      · rw [ih left right]

theorem segments_cons {c : Char} (s : List Char) (plain : Quoted.isQuote c = false) :
    segments (c :: s) = .char c :: segments s := by
  simp [segments, segmentsUpTo, plain]

theorem segments_whole {literal : List Char} (whole : Quoted.isWhole literal = true) (s : List Char) :
    segments (literal ++ s) = .quoted literal :: segments s := by
  have found := Quoted.split?_append_of_isWhole whole s
  obtain ⟨quote, inner, isQuote, _, rfl⟩ := Quoted.isWhole_iff.mp whole
  rw [List.cons_append] at found ⊢
  simp only [segments, List.length_cons, segmentsUpTo, isQuote, if_true, found]
  rw [segmentsUpTo_congr (by simp) (Nat.le_refl s.length)]

theorem withoutQuoted_cons {c : Char} (s : List Char) (plain : Quoted.isQuote c = false) :
    withoutQuoted (c :: s) = c :: withoutQuoted s := by
  rw [withoutQuoted, segments_cons s plain]
  rfl

theorem withoutQuoted_append {t : List Char} (s : List Char) (plain : ∀ c ∈ t, Quoted.isQuote c = false) :
    withoutQuoted (t ++ s) = t ++ withoutQuoted s := by
  induction t with
  | nil => rfl
  | cons c t ih =>
    obtain ⟨first, others⟩ := List.forall_mem_cons.mp plain
    rw [List.cons_append, withoutQuoted_cons _ first, ih others, List.cons_append]

theorem withoutQuoted_whole {literal : List Char} (whole : Quoted.isWhole literal = true) (s : List Char) :
    withoutQuoted (literal ++ s) = literal.take 1 ++ literal.take 1 ++ withoutQuoted s := by
  rw [withoutQuoted, segments_whole whole]
  rfl

/-- Every assignment that the check finds passes, however far it looks. -/
def AssignmentsPass (w : List Char) : Prop :=
  ∀ count, ∀ arguments ∈ assignments count w, checkAssignment arguments = .ok ()

def ConditionsPass (w : List Char) : Prop :=
  ∀ count, ∀ fragment ∈ conditions count w, checkCondition fragment = .ok ()

theorem assignmentsPass_nil : AssignmentsPass [] := by
  intro count arguments member
  cases count <;> simp [assignments, Text.seek?] at member

theorem conditionsPass_nil : ConditionsPass [] := by
  intro count fragment member
  cases count <;> simp [conditions] at member

theorem AssignmentsPass.cons {c : Char} {w : List Char} (pass : AssignmentsPass w)
    (other : c = 'G' → w.head? ≠ some '(') : AssignmentsPass (c :: w) := by
  have noStart : Text.strip? "G(" (c :: w) = none := by
    refine strip?_eq_none fun rest same => ?_
    obtain ⟨isG, behind⟩ := List.cons.inj same
    exact other isG (by rw [behind]; rfl)
  intro count
  cases count with
  | zero => simp [assignments]
  | succ count =>
    have skip : assignments (count + 1) (c :: w) = assignments (count + 1) w := by
      simp [assignments, Text.seek?, noStart]
    rw [skip]
    exact pass (count + 1)

theorem AssignmentsPass.append {t w : List Char} (pass : AssignmentsPass w) (other : ∀ c ∈ t, c ≠ 'G') :
    AssignmentsPass (t ++ w) := by
  induction t with
  | nil => exact pass
  | cons c t ih =>
    obtain ⟨first, others⟩ := List.forall_mem_cons.mp other
    exact (ih others).cons fun isG => absurd isG first

theorem AssignmentsPass.assignment {arguments w : List Char} (pass : AssignmentsPass w)
    (inside : ∀ c ∈ arguments, c ≠ ')') (right : checkAssignment arguments = .ok ()) :
    AssignmentsPass ("G(".toList ++ (arguments ++ ')' :: w)) := by
  have stop : Text.Stops (· != ')') (')' :: w) := Text.stops_cons w (by simp)
  have run := Text.takeWhile_append_of_stops (fun c member => by simpa using inside c member) stop
  have rest := Text.dropWhile_append_of_stops (fun c member => by simpa using inside c member) stop
  intro count
  cases count with
  | zero => simp [assignments]
  | succ count =>
    have found : Text.strip? "G(" ('G' :: '(' :: (arguments ++ ')' :: w)) = some (arguments ++ ')' :: w) :=
      Text.strip?_append "G(" _
    have step : assignments (count + 1) ('G' :: '(' :: (arguments ++ ')' :: w)) =
        arguments :: assignments count w := by
      simp only [assignments, Text.seek?, found, Option.isSome_some, if_true, Option.map_some,
        List.drop_succ_cons, List.drop_zero, run, rest]
    show ∀ fragment ∈ assignments (count + 1) ('G' :: '(' :: (arguments ++ ')' :: w)), _
    rw [step]
    exact List.forall_mem_cons.mpr ⟨right, pass count⟩

theorem checkAssignment_eq_ok (type : SlotType) {d o w : List Char} (inIndex : ',' ∉ d) (inOp : ',' ∉ o)
    (inValue : ',' ∉ w) : checkAssignment (type.code :: ',' :: (d ++ ',' :: (o ++ ',' :: w))) = .ok () := by
  have whole {t : List Char} (noComma : ',' ∉ t) : t.splitOnP (· == ',') = [t] := by
    refine List.splitOnP_eq_singleton fun c member => ?_
    rw [beq_eq_false_iff_ne]
    rintro rfl
    exact noComma member
  have inCode : ',' ∉ [type.code] := by cases type <;> decide
  have split : (type.code :: ',' :: (d ++ ',' :: (o ++ ',' :: w))).splitOn ',' = [[type.code], d, o, w] := by
    rw [List.splitOn, ← List.singleton_append, List.splitOnP_append_cons _ _ (by simp),
      List.splitOnP_append_cons _ _ (by simp), List.splitOnP_append_cons _ _ (by simp), whole inCode, whole inIndex,
      whole inOp, whole inValue]
    rfl
  simp only [checkAssignment, split, SlotType.ofCode?_code, Option.isSome_some, if_true]

theorem ConditionsPass.cons {c : Char} {w : List Char} (pass : ConditionsPass w)
    (other : c = 'O' → ∀ d ∈ w.head?, isOperatorChar d = false) : ConditionsPass (c :: w) := by
  have noStart : conditionAt? (c :: w) = none := by
    unfold conditionAt?
    split
    · rename_i s same
      obtain ⟨isO, rfl⟩ := List.cons.inj same
      have noOperator : w.takeWhile isOperatorChar = [] := by
        cases w with
        | nil => rfl
        | cons d w => simp [other isO d rfl]
      simp [noOperator]
    · rfl
  intro count
  cases count with
  | zero => simp [conditions]
  | succ count =>
    simp only [conditions, noStart]
    exact pass count

theorem ConditionsPass.append {t w : List Char} (pass : ConditionsPass w) (other : ∀ c ∈ t, c ≠ 'O') :
    ConditionsPass (t ++ w) := by
  induction t with
  | nil => exact pass
  | cons c t ih =>
    obtain ⟨first, others⟩ := List.forall_mem_cons.mp other
    exact (ih others).cons fun isO => absurd isO first

/-- May stand in a value outside its quotes, and is no letter that an assignment or a condition starts with. -/
def isOperandChar (c : Char) : Bool := !(c ∈ [',', '|', '{', '}', '(', ')', 'G', 'O'])

theorem isOperandChar_iff {c : Char} : isOperandChar c = true ↔
    c ≠ ',' ∧ isBracketOrBar c = false ∧ c ≠ 'G' ∧ c ≠ 'O' := by
  simp only [isOperandChar, isBracketOrBar, List.mem_cons, List.not_mem_nil, or_false, Bool.not_eq_true',
    decide_eq_false_iff_not]
  tauto

/-- A class of characters keeps clear of the characters that are not in it. -/
theorem isOperandChar_of_class {p : Char → Bool} {c : Char} (inClass : p c = true)
    (outside : [',', '|', '{', '}', '(', ')', 'G', 'O'].any p = false) : isOperandChar c = true := by
  have clear := Text.not_mem_of_class inClass outside
  simpa only [isOperandChar, Bool.not_eq_true', decide_eq_false_iff_not] using clear

theorem conditionAt?_condition {op l r w : List Char} (operators : ∀ c ∈ op, isOperatorChar c = true)
    (short : op.length = 1 ∨ op.length = 2) (left : l ≠ [] ∧ ∀ c ∈ l, isOperandChar c = true)
    (right : r ≠ [] ∧ ∀ c ∈ r, isOperandChar c = true) (stop : Text.Stops (!isBracketOrBar ·) w) :
    conditionAt? ('O' :: (op ++ ',' :: (l ++ ',' :: (r ++ w)))) = some (⟨op, l, r⟩, w) := by
  have stopOp : Text.Stops isOperatorChar (',' :: (l ++ ',' :: (r ++ w))) := Text.stops_cons _ (by decide)
  have stopLeft : Text.Stops (fun c => c != ',' && !isBracketOrBar c) (',' :: (r ++ w)) :=
    Text.stops_cons _ (by decide)
  have inLeft : ∀ c ∈ l, (c != ',' && !isBracketOrBar c) = true := by
    intro c member
    obtain ⟨comma, bracket, _⟩ := isOperandChar_iff.mp (left.2 c member)
    simp [comma, bracket]
  have inRight : ∀ c ∈ r, (!isBracketOrBar c) = true := by
    intro c member
    simp [(isOperandChar_iff.mp (right.2 c member)).2.1]
  simp only [conditionAt?, Text.takeWhile_append_of_stops operators stopOp,
    Text.dropWhile_append_of_stops operators stopOp, Text.takeWhile_append_of_stops inLeft stopLeft,
    Text.dropWhile_append_of_stops inLeft stopLeft, Text.takeWhile_append_of_stops inRight stop,
    Text.dropWhile_append_of_stops inRight stop]
  simp [short, left.1, right.1]

theorem ConditionsPass.condition {op l r w : List Char} (pass : ConditionsPass w)
    (operators : ∀ c ∈ op, isOperatorChar c = true) (short : op.length = 1 ∨ op.length = 2)
    (left : l ≠ [] ∧ ∀ c ∈ l, isOperandChar c = true) (right : r ≠ [] ∧ ∀ c ∈ r, isOperandChar c = true)
    (stop : Text.Stops (!isBracketOrBar ·) w) :
    ConditionsPass ('O' :: (op ++ ',' :: (l ++ ',' :: (r ++ w)))) := by
  have found := conditionAt?_condition operators short left right stop
  have oneComma : ',' ∉ r := fun member => (isOperandChar_iff.mp (right.2 _ member)).1 rfl
  intro count
  cases count with
  | zero => simp [conditions]
  | succ count =>
    simp only [conditions, found]
    exact List.forall_mem_cons.mpr ⟨if_neg oneComma, pass count⟩

theorem forM_eq_ok {α : Type} {f : α → Except Flaw Unit} {items : List α}
    (all : ∀ item ∈ items, f item = .ok ()) : items.forM f = .ok () := by
  induction items with
  | nil => rfl
  | cons item items ih =>
    obtain ⟨first, others⟩ := List.forall_mem_cons.mp all
    show (f item >>= fun _ => items.forM f) = .ok ()
    rw [first]
    exact ih others

theorem checkFragments_eq_ok {w : List Char} (assign : AssignmentsPass w) (condition : ConditionsPass w) :
    checkFragments w = .ok () := by
  unfold checkFragments
  rw [forM_eq_ok (assign w.length)]
  exact forM_eq_ok (condition w.length)

end RobotScript.Script
