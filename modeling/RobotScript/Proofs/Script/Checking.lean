import RobotScript.Proofs.Script.Fragments

namespace RobotScript.Script

theorem byteSize_append (s t : List Char) : Text.byteSize (s ++ t) = Text.byteSize s + Text.byteSize t := by
  induction s with
  | nil => simp [Text.byteSize]
  | cons c s ih =>
    simp only [List.cons_append, Text.byteSize, ih]
    omega

theorem byteSize_cons_pos (c : Char) (s : List Char) : 0 < Text.byteSize (c :: s) :=
  Nat.add_pos_left c.utf8Size_pos _

/-- A place in a text is known by the bytes before it. -/
theorem append_inj_of_byteSize {s t s' t' : List Char} (same : s ++ t = s' ++ t')
    (size : Text.byteSize s = Text.byteSize s') : s = s' ∧ t = t' := by
  have front : s = s' := by
    rcases List.append_eq_append_iff.mp same with ⟨more, rfl, -⟩ | ⟨more, rfl, -⟩ <;> cases more with
    | nil => simp
    | cons c more =>
      have positive := byteSize_cons_pos c more
      rw [byteSize_append] at size
      omega
  subst front
  exact ⟨rfl, List.append_cancel_left same⟩

/-- The brackets of a piece close within it, so that what is due before it is due behind it. -/
def Balanced (t : List Char) : Prop :=
  ∀ pending index s, checkBrackets pending index (segments (t ++ s)) =
    checkBrackets pending (index + Text.byteSize t) (segments s)

theorem balanced_nil : Balanced [] := fun _ _ _ => rfl

theorem Balanced.append {a b : List Char} (first : Balanced a) (second : Balanced b) : Balanced (a ++ b) := by
  intro pending index s
  rw [List.append_assoc, first, second, byteSize_append, Nat.add_assoc]

/-- What is due behind a bracket, the next one first. There is no going on from a closing one that is not due. -/
def due? (pending : List Char) (c : Char) : Option (List Char) :=
  match closer? c with
  | some closer => some (closer :: pending)
  | none =>
    if isCloser c then
      match pending with
      | [] => none
      | next :: pending => if next = c then some pending else none
    else some pending

/-- A character of a script changes what is due, or the check fails at it. -/
theorem checkBrackets_char (c : Char) (pending : List Char) (index : Nat) (rest : List Segment) :
    checkBrackets pending index (.char c :: rest) =
      match due? pending c with
      | some pending => checkBrackets pending (index + c.utf8Size) rest
      | none => .error (.unbalanced index) := by
  cases opens : closer? c with
  | some closer => cases pending <;> simp [checkBrackets, due?, opens]
  | none =>
    cases closes : isCloser c with
    | false => cases pending <;> simp [checkBrackets, due?, opens, closes]
    | true =>
      cases pending with
      | nil => simp [checkBrackets, due?, opens, closes]
      | cons next pending =>
        by_cases same : next = c
        · simp [checkBrackets, due?, opens, closes, same]
        · simp [checkBrackets, due?, opens, closes, same]

theorem checkBrackets_open {o c : Char} (pair : closer? o = some c) (pending : List Char) (index : Nat)
    (rest : List Segment) : checkBrackets pending index (.char o :: rest) =
      checkBrackets (c :: pending) (index + o.utf8Size) rest := by
  simp [checkBrackets_char, due?, pair]

theorem checkBrackets_close {c : Char} (noOpener : closer? c = none) (closes : isCloser c = true)
    (pending : List Char) (index : Nat) (rest : List Segment) :
    checkBrackets (c :: pending) index (.char c :: rest) = checkBrackets pending (index + c.utf8Size) rest := by
  simp [checkBrackets_char, due?, noOpener, closes]

theorem checkBrackets_other {c : Char} (noOpener : closer? c = none) (noCloser : isCloser c = false)
    (pending : List Char) (index : Nat) (rest : List Segment) :
    checkBrackets pending index (.char c :: rest) = checkBrackets pending (index + c.utf8Size) rest := by
  simp [checkBrackets_char, due?, noOpener, noCloser]

def isBracket (c : Char) : Bool := c ∈ ['(', ')', '{', '}']

theorem neutral_of_not_isBracket {c : Char} (noBracket : isBracket c = false) :
    closer? c = none ∧ isCloser c = false := by
  simp only [isBracket, List.mem_cons, List.not_mem_nil, or_false, decide_eq_false_iff_not, not_or] at noBracket
  have noOpener : closer? c = none := by
    unfold closer?
    split
    · exact absurd rfl noBracket.1
    · exact absurd rfl noBracket.2.2.1
    · rfl
  exact ⟨noOpener, by simp [isCloser, noBracket]⟩

theorem balanced_char {c : Char} (noQuote : Quoted.isQuote c = false) (noBracket : isBracket c = false) :
    Balanced [c] := by
  obtain ⟨noOpener, noCloser⟩ := neutral_of_not_isBracket noBracket
  intro pending index s
  rw [List.singleton_append, segments_cons s noQuote, checkBrackets_other noOpener noCloser]
  rfl

theorem balanced_plain {t : List Char} (plain : ∀ c ∈ t, Quoted.isQuote c = false ∧ isBracket c = false) :
    Balanced t := by
  induction t with
  | nil => exact balanced_nil
  | cons c t ih =>
    obtain ⟨first, others⟩ := List.forall_mem_cons.mp plain
    exact (balanced_char first.1 first.2).append (ih others)

theorem balanced_whole {literal : List Char} (whole : Quoted.isWhole literal = true) : Balanced literal := by
  intro pending index s
  rw [segments_whole whole]
  simp [checkBrackets]

theorem closer?_eq_some {o c : Char} (pair : closer? o = some c) :
    (o = '(' ∧ c = ')') ∨ (o = '{' ∧ c = '}') := by
  unfold closer? at pair
  split at pair
  · exact .inl ⟨rfl, (Option.some.inj pair).symm⟩
  · exact .inr ⟨rfl, (Option.some.inj pair).symm⟩
  · cases pair

theorem Balanced.enclose {o c : Char} {t : List Char} (inner : Balanced t) (pair : closer? o = some c) :
    Balanced (o :: (t ++ [c])) := by
  have noQuotes : Quoted.isQuote o = false ∧ Quoted.isQuote c = false := by
    rcases closer?_eq_some pair with ⟨rfl, rfl⟩ | ⟨rfl, rfl⟩ <;> decide
  have closes : closer? c = none ∧ isCloser c = true := by
    rcases closer?_eq_some pair with ⟨rfl, rfl⟩ | ⟨rfl, rfl⟩ <;> decide
  intro pending index s
  rw [List.cons_append, segments_cons _ noQuotes.1, List.append_assoc, checkBrackets_open pair, inner,
    List.singleton_append, segments_cons _ noQuotes.2, checkBrackets_close closes.1 closes.2]
  simp [byteSize_append, Text.byteSize, Nat.add_assoc]

/-- A piece of a script that the check goes through without complaint, given what may follow it. -/
structure Passes (ends : List Char → Prop) (t : List Char) : Prop where
  balanced : Balanced t
  assignments : ∀ {s}, ends s → AssignmentsPass (withoutQuoted s) → AssignmentsPass (withoutQuoted (t ++ s))
  conditions : ∀ {s}, ends s → ConditionsPass (withoutQuoted s) → ConditionsPass (withoutQuoted (t ++ s))

/-- Nothing is asked of what follows. -/
abbrev Anything (_ : List Char) : Prop := True

section

variable {ends behind : List Char → Prop}

theorem passes_nil : Passes ends [] := ⟨balanced_nil, fun _ pass => pass, fun _ pass => pass⟩

theorem Passes.append {a b : List Char} (first : Passes behind a) (second : Passes ends b)
    (meets : ∀ {s}, ends s → behind (b ++ s)) : Passes ends (a ++ b) where
  balanced := first.balanced.append second.balanced
  assignments := by
    intro s stop pass
    rw [List.append_assoc]
    exact first.assignments (meets stop) (second.assignments stop pass)
  conditions := by
    intro s stop pass
    rw [List.append_assoc]
    exact first.conditions (meets stop) (second.conditions stop pass)

theorem Passes.anywhere {t : List Char} (passes : Passes Anything t) : Passes ends t :=
  ⟨passes.balanced, fun _ => passes.assignments trivial, fun _ => passes.conditions trivial⟩

theorem Passes.before {a b : List Char} (first : Passes Anything a) (second : Passes ends b) :
    Passes ends (a ++ b) :=
  first.append second fun _ => trivial

/-- Opens no literal, no bracket, no assignment and no condition. -/
def isCalm (c : Char) : Bool := !Quoted.isQuote c && !isBracket c && c != 'G' && c != 'O'

theorem isCalm_of_class {p : Char → Bool} {c : Char} (inClass : p c = true)
    (outside : ['"', '\'', '(', ')', '{', '}', 'G', 'O'].any p = false) : isCalm c = true := by
  have clear := Text.not_mem_of_class inClass outside
  simp only [List.mem_cons, List.not_mem_nil, or_false, not_or] at clear
  simp [isCalm, Quoted.isQuote, isBracket, clear]

theorem isCalm_iff {c : Char} :
    isCalm c = true ↔ (Quoted.isQuote c = false ∧ isBracket c = false) ∧ c ≠ 'G' ∧ c ≠ 'O' := by
  simp [isCalm, and_assoc]

theorem passes_calm {t : List Char} (calm : ∀ c ∈ t, isCalm c = true) : Passes ends t := by
  simp only [isCalm_iff] at calm
  refine ⟨balanced_plain fun c member => (calm c member).1, fun _ pass => ?_, fun _ pass => ?_⟩
  · rw [withoutQuoted_append _ fun c member => (calm c member).1.1]
    exact pass.append fun c member => (calm c member).2.1
  · rw [withoutQuoted_append _ fun c member => (calm c member).1.1]
    exact pass.append fun c member => (calm c member).2.2

theorem passes_char {c : Char} (calm : isCalm c = true) : Passes ends [c] :=
  passes_calm (List.forall_mem_singleton.mpr calm)

theorem Passes.enclose {o c : Char} {t : List Char} (inner : Passes behind t) (pair : closer? o = some c)
    (meets : ∀ s, behind (c :: s)) : Passes ends (o :: (t ++ [c])) := by
  have opener : Quoted.isQuote o = false ∧ o ≠ 'G' ∧ o ≠ 'O' := by
    rcases closer?_eq_some pair with ⟨rfl, rfl⟩ | ⟨rfl, rfl⟩ <;> decide
  have closer : Quoted.isQuote c = false ∧ c ≠ 'G' ∧ c ≠ 'O' := by
    rcases closer?_eq_some pair with ⟨rfl, rfl⟩ | ⟨rfl, rfl⟩ <;> decide
  refine ⟨inner.balanced.enclose pair, ?_, ?_⟩
  · intro s _ pass
    rw [List.cons_append, withoutQuoted_cons _ opener.1, List.append_assoc, List.singleton_append]
    refine AssignmentsPass.cons (inner.assignments (meets s) ?_) fun isG => absurd isG opener.2.1
    rw [withoutQuoted_cons _ closer.1]
    exact pass.cons fun isG => absurd isG closer.2.1
  · intro s _ pass
    rw [List.cons_append, withoutQuoted_cons _ opener.1, List.append_assoc, List.singleton_append]
    refine ConditionsPass.cons (inner.conditions (meets s) ?_) fun isO => absurd isO opener.2.2
    rw [withoutQuoted_cons _ closer.1]
    exact pass.cons fun isO => absurd isO closer.2.2

theorem balanced_of_isPlainChar {t : List Char} (plain : ∀ c ∈ t, isPlainChar c = true) : Balanced t := by
  refine balanced_plain fun c member => ⟨not_isQuote_of_isPlainChar (plain c member), ?_⟩
  have clear : c ∉ ['(', ')', '{', '}'] := Text.not_mem_of_class (plain c member) (by decide)
  simpa only [isBracket, decide_eq_false_iff_not] using clear

/-- A value as the check sees it: what is left of it without the content of quotes. -/
theorem exists_operand {t : List Char} (verbatim : Verbatim t) :
    ∃ w, w ≠ [] ∧ (∀ c ∈ w, isOperandChar c = true) ∧ ∀ s, withoutQuoted (t ++ s) = w ++ withoutQuoted s := by
  have unquoted {t : List Char} (plain : ∀ c ∈ t, isPlainChar c = true) (s : List Char) :
      withoutQuoted (t ++ s) = t ++ withoutQuoted s :=
    withoutQuoted_append s fun c member => not_isQuote_of_isPlainChar (plain c member)
  have digitOperand {c : Char} (digit : isDigit c = true) : isOperandChar c = true :=
    isOperandChar_of_class digit (by decide)
  have nonempty := verbatim.ne_nil
  cases verbatim with
  | symbol name =>
    refine ⟨name.chars, nonempty, ?_, unquoted fun _ => isPlainChar_of_mem_symbol⟩
    obtain ⟨letter, c, shape, isLetter, second⟩ := name.chars_shape
    have letters : ∀ l ∈ ['I', 'F', 'C', 'S', 'B', 'T', 'A', 'V'], isOperandChar l = true :=
      List.all_eq_true.mp (by decide)
    rw [shape]
    refine List.forall_mem_cons.mpr ⟨letters letter isLetter, List.forall_mem_singleton.mpr ?_⟩
    rcases second with digit | rfl
    · exact digitOperand digit
    · decide
  | number numeric =>
    refine ⟨t, nonempty, ?_, unquoted (isPlainChar_of_isNumeric numeric)⟩
    obtain ⟨u, unsigned, same⟩ := isNumeric_iff.mp numeric
    have inside : ∀ c ∈ u, isOperandChar c = true := by
      intro c member
      rcases unsigned.mem member with digit | rfl
      · exact digitOperand digit
      · decide
    rcases same with rfl | rfl
    · exact inside
    · exact List.forall_mem_cons.mpr ⟨by decide, inside⟩
  | quoted whole =>
    refine ⟨t.take 1 ++ t.take 1, ?_, ?_, withoutQuoted_whole whole⟩
    · simpa using nonempty
    · obtain ⟨quote, inner, isQuote, _, rfl⟩ := Quoted.isWhole_iff.mp whole
      have operand : isOperandChar quote = true := isOperandChar_of_class isQuote (by decide)
      simpa using operand

theorem passes_verbatim {t : List Char} (verbatim : Verbatim t) : Passes ends t := by
  obtain ⟨w, -, operand, emptied⟩ := exists_operand verbatim
  refine ⟨?_, fun _ pass => ?_, fun _ pass => ?_⟩
  · cases verbatim with
    | symbol name => exact balanced_of_isPlainChar fun _ => isPlainChar_of_mem_symbol
    | number numeric => exact balanced_of_isPlainChar (isPlainChar_of_isNumeric numeric)
    | quoted whole => exact balanced_whole whole
  · rw [emptied]
    exact pass.append fun c member => (isOperandChar_iff.mp (operand c member)).2.2.1
  · rw [emptied]
    exact pass.append fun c member => (isOperandChar_iff.mp (operand c member)).2.2.2

theorem passes_condition {t : List Char} {c : Condition} (spelled : SpellsCondition t c) :
    Passes (fun s => ∃ r, s = ')' :: r) t := by
  cases spelled with
  | @mk op l r left right spelledLeft spelledRight =>
    have operators : ∀ c ∈ op.wire.toList, isOperatorChar c = true :=
      List.all_eq_true.mp (by cases op <;> decide)
    have short : op.wire.toList.length = 1 ∨ op.wire.toList.length = 2 := by cases op <;> decide
    have calm : ∀ c ∈ op.wire.toList ++ [','], isCalm c = true :=
      List.all_eq_true.mp (by cases op <;> decide)
    have passesLeft : Passes Anything l := passes_verbatim spelledLeft.verbatim
    have passesRight : Passes Anything r := passes_verbatim spelledRight.verbatim
    have comma : Passes Anything [','] := passes_char rfl
    have rest : Passes Anything (op.wire.toList ++ [','] ++ (l ++ ([','] ++ r))) :=
      (passes_calm calm).before (passesLeft.before (comma.before passesRight))
    have shape : 'O' :: op.wire.toList ++ ',' :: l ++ ',' :: r =
        'O' :: (op.wire.toList ++ [','] ++ (l ++ ([','] ++ r))) := by simp
    rw [shape]
    refine ⟨(balanced_char rfl rfl).append rest.balanced, ?_, ?_⟩
    · intro s _ pass
      rw [List.cons_append, withoutQuoted_cons _ rfl]
      exact (rest.assignments trivial pass).cons fun isG => absurd isG (by decide)
    · rintro _ ⟨s, rfl⟩ pass
      obtain ⟨left, leftNonempty, inLeft, emptiedLeft⟩ := exists_operand spelledLeft.verbatim
      obtain ⟨right, rightNonempty, inRight, emptiedRight⟩ := exists_operand spelledRight.verbatim
      have closed : withoutQuoted (')' :: s) = ')' :: withoutQuoted s := withoutQuoted_cons s rfl
      rw [closed] at pass
      have found := pass.condition operators short ⟨leftNonempty, inLeft⟩ ⟨rightNonempty, inRight⟩
        (Text.stops_cons _ (by decide))
      have emptied : withoutQuoted (l ++ ([','] ++ r) ++ ')' :: s) =
          left ++ ',' :: (right ++ ')' :: withoutQuoted s) := by
        rw [List.append_assoc, emptiedLeft, List.append_assoc, List.singleton_append,
          withoutQuoted_cons _ rfl, emptiedRight, closed]
      rw [List.cons_append, withoutQuoted_cons _ rfl, List.append_assoc,
        withoutQuoted_append _ fun c member => (isCalm_iff.mp (calm c member)).1.1, emptied]
      simpa using found

/-- In a word no letter is followed by a bracket or an operator, and behind it stands a bar. -/
theorem fragments_word {t w : List Char} (inWord : ∀ c ∈ t, isCommandChar c = true)
    (stop : ∀ c ∈ w.head?, c = '|') :
    (AssignmentsPass w → AssignmentsPass (t ++ w)) ∧ (ConditionsPass w → ConditionsPass (t ++ w)) := by
  induction t with
  | nil => exact ⟨fun pass => pass, fun pass => pass⟩
  | cons c t ih =>
    obtain ⟨-, others⟩ := List.forall_mem_cons.mp inWord
    obtain ⟨assign, condition⟩ := ih others
    have next : ∀ d ∈ (t ++ w).head?, d ≠ '(' ∧ isOperatorChar d = false := by
      intro d first
      cases t with
      | nil =>
        cases stop d first
        decide
      | cons _ t =>
        cases first
        have clear : d ∉ ['(', '!', '<', '>', '=', '+', '-', '*', '/'] :=
          Text.not_mem_of_class (others d (by simp)) (by decide)
        simpa [isOperatorChar] using clear
    constructor
    · exact fun pass => (assign pass).cons fun _ opens => (next '(' opens).1 rfl
    · exact fun pass => (condition pass).cons fun _ d first => (next d first).2

theorem passes_word {t : List Char} (inWord : ∀ c ∈ t, isCommandChar c = true) : Passes EndsToken t := by
  have plain : ∀ c ∈ t, isPlainChar c = true := fun c member => by simp [isPlainChar, inWord c member]
  have unquoted : ∀ c ∈ t, Quoted.isQuote c = false := by
    intro c member
    exact not_isQuote_of_isPlainChar (plain c member)
  have fragments {s : List Char} (stop : EndsToken s) := by
    refine fragments_word (w := withoutQuoted s) inWord ?_
    rcases stop.cases with rfl | ⟨r, rfl⟩
    · intro c first
      cases first
    · rw [withoutQuoted_cons _ (by decide)]
      intro c first
      exact (Option.some.inj first).symm
  refine ⟨balanced_of_isPlainChar plain, fun stop pass => ?_, fun stop pass => ?_⟩
  · rw [withoutQuoted_append _ unquoted]
    exact (fragments stop).1 pass
  · rw [withoutQuoted_append _ unquoted]
    exact (fragments stop).2 pass

/-- An assignment up to its value. -/
def assignHead (target : Slot) (op : AssignOp) : List Char :=
  target.type.code :: ',' :: (digits target.index ++ ',' :: (op.symbol.toList ++ [',']))

theorem isCalm_assignHead (target : Slot) (op : AssignOp) : ∀ c ∈ assignHead target op, isCalm c = true := by
  obtain ⟨d, single, digit, -⟩ := target.digits_index
  have letter : isCalm target.type.code = true := by cases target.type <;> decide
  have index : isCalm d = true := isCalm_of_class digit (by decide)
  have rest : ∀ c ∈ ',' :: (op.symbol.toList ++ [',']), isCalm c = true :=
    List.all_eq_true.mp (by cases op <;> decide)
  rw [assignHead, single]
  refine List.forall_mem_cons.mpr ⟨letter, List.forall_mem_cons.mpr ⟨rfl, ?_⟩⟩
  exact List.forall_mem_cons.mpr ⟨index, rest⟩

theorem checkAssignment_assignHead (target : Slot) (op : AssignOp) {w : List Char}
    (operand : ∀ c ∈ w, isOperandChar c = true) : checkAssignment (assignHead target op ++ w) = .ok () := by
  obtain ⟨d, single, digit, -⟩ := target.digits_index
  have inIndex : ',' ∉ digits target.index := by
    rw [single, List.mem_singleton]
    rintro rfl
    exact absurd digit (by decide)
  have inOp : ',' ∉ op.symbol.toList := by cases op <;> decide
  have inValue : ',' ∉ w := fun member => (isOperandChar_iff.mp (operand _ member)).1 rfl
  have right := checkAssignment_eq_ok target.type inIndex inOp inValue
  simpa [assignHead] using right

theorem passes_assign {t : List Char} {node : Node} (spelled : SpellsAssign t node) : Passes ends t := by
  cases spelled with
  | @mk target op v value spelledValue =>
    obtain ⟨w, -, operand, emptied⟩ := exists_operand spelledValue.verbatim
    have head : Passes Anything (assignHead target op) := passes_calm (isCalm_assignHead target op)
    have inner : Passes Anything (assignHead target op ++ v) :=
      head.before (passes_verbatim spelledValue.verbatim)
    have enclosed : Passes ends ('(' :: (assignHead target op ++ v ++ [')'])) :=
      inner.enclose rfl fun _ => trivial
    have shape : "G(".toList ++ target.type.code :: ',' :: digits target.index ++ ',' :: op.symbol.toList ++
        ',' :: v ++ [')'] = ['G'] ++ '(' :: (assignHead target op ++ v ++ [')']) := by
      simp [assignHead]
    rw [shape]
    refine ⟨(balanced_char rfl rfl).append enclosed.balanced, ?_, ?_⟩
    · intro s _ pass
      have calm (c : Char) (member : c ∈ assignHead target op) :=
        isCalm_iff.mp (isCalm_assignHead target op c member)
      have inside : ∀ c ∈ assignHead target op ++ w, c ≠ ')' := by
        refine List.forall_mem_append.mpr ⟨fun c member => ?_, fun c member => ?_⟩
        · rintro rfl
          exact absurd (calm _ member).1.2 (by decide)
        · rintro rfl
          exact absurd (operand _ member) (by decide)
      have text : withoutQuoted (['G'] ++ '(' :: (assignHead target op ++ v ++ [')']) ++ s) =
          "G(".toList ++ (assignHead target op ++ w ++ ')' :: withoutQuoted s) := by
        have bracket : withoutQuoted (')' :: s) = ')' :: withoutQuoted s := withoutQuoted_cons s (by decide)
        rw [List.append_assoc, List.singleton_append, withoutQuoted_cons _ (by decide), List.cons_append,
          withoutQuoted_cons _ (by decide), List.append_assoc, List.append_assoc,
          withoutQuoted_append _ fun c member => (calm c member).1.1, emptied, List.singleton_append, bracket]
        simp
      rw [text]
      exact pass.assignment inside (checkAssignment_assignHead target op operand)
    · intro s stop pass
      rw [List.append_assoc, List.singleton_append, withoutQuoted_cons _ (by decide)]
      exact (enclosed.conditions stop pass).cons fun isO => absurd isO (by decide)

theorem endsToken_barred (ts : List (List Char)) {s : List Char} (stop : EndsToken s) :
    EndsToken (barred ts ++ s) := by
  cases ts with
  | nil => exact stop
  | cons t ts => exact endsToken_bar _

theorem passes_barred {token : List Char → Node → Prop} {ts : List (List Char)} {nodes : List Node}
    (spelled : List.Forall₂ token ts nodes) (one : ∀ {t node}, token t node → Passes EndsToken t) :
    Passes EndsToken (barred ts) := by
  induction spelled with
  | nil => exact passes_nil
  | @cons t node ts nodes first _ ih =>
    have bar : Passes Anything ['|'] := passes_char rfl
    exact bar.before ((one first).append ih (endsToken_barred ts))

theorem passes_join {token : List Char → Node → Prop} {ts : List (List Char)} {nodes : List Node}
    (spelled : List.Forall₂ token ts nodes) (one : ∀ {t node}, token t node → Passes EndsToken t) :
    Passes EndsToken (join ts) := by
  cases spelled with
  | nil => exact passes_nil
  | @cons t node ts nodes first others =>
    rw [join_cons]
    exact (one first).append (passes_barred others one) (endsToken_barred ts)

theorem passes_body {token : List Char → Node → Prop} {b : List Char} {nodes : List Node}
    (spelled : SpellsBody token b nodes) (one : ∀ {t node}, token t node → Passes EndsToken t) :
    Passes ends b := by
  cases spelled with
  | @mk ts _ tokens =>
    by_cases empty : ts = []
    · subst empty
      have inner : Passes Anything [] := passes_nil
      exact inner.enclose rfl fun _ => trivial
    · have bar : Passes Anything ['|'] := passes_char rfl
      have inner := (passes_barred tokens one).append bar fun _ => endsToken_bar _
      have shape : body ts = '{' :: (barred ts ++ ['|'] ++ ['}']) := by
        obtain ⟨t, ts, rfl⟩ := List.exists_cons_of_ne_nil empty
        simp [body, join_cons, barred_cons]
      rw [shape]
      exact inner.enclose rfl fun _ => trivial

theorem passes_int {t : List Char} {n : Int32} (spelled : SpellsInt t n) : Passes ends t := by
  obtain ⟨ds, digit, same⟩ := spelled.shape
  have inside : ∀ c ∈ ds, isCalm c = true := fun c member => isCalm_of_class (digit c member) (by decide)
  rcases same with rfl | rfl
  · exact passes_calm inside
  · exact passes_calm (List.forall_mem_cons.mpr ⟨by decide, inside⟩)

variable {spellsBody : List Char → List Node → Prop}

theorem passes_cases {t : List Char} {cases : List (Value × List Node)}
    (spelled : SpellsCases spellsBody t cases) (bodies : ∀ {b nodes}, spellsBody b nodes → Passes Anything b) :
    Passes Anything t := by
  induction spelled with
  | nil => exact passes_nil
  | @cons v b t value nodes cases spelledValue spelledBody _ ih =>
    have inner : Passes Anything v := passes_verbatim spelledValue.verbatim
    have match_ : Passes Anything ('(' :: (v ++ [')'])) := inner.enclose rfl fun _ => trivial
    have blank : Passes Anything [' '] := passes_char rfl
    have shape : '(' :: v ++ ')' :: b ++ ' ' :: t = '(' :: (v ++ [')']) ++ (b ++ ([' '] ++ t)) := by simp
    rw [shape]
    exact match_.before ((bodies spelledBody).before (blank.before ih))

theorem passes_node {t : List Char} {node : Node} (spelled : SpellsNode spellsBody t node)
    (bodies : ∀ {b nodes}, spellsBody b nodes → Passes Anything b) : Passes EndsToken t := by
  have letter (c : Char) (calm : isCalm c = true) : Passes Anything [c] :=
    passes_calm (List.forall_mem_singleton.mpr calm)
  cases spelled with
  | word _ inWord => exact passes_word inWord
  | assign spelled => exact passes_assign spelled
  | @branch c y n condition yes no spelledCondition spelledYes spelledNo =>
    have head : Passes Anything ('(' :: (c ++ [')'])) :=
      (passes_condition spelledCondition).enclose rfl fun s => ⟨s, rfl⟩
    have shape : "C(".toList ++ c ++ ')' :: y ++ n = ['C'] ++ ('(' :: (c ++ [')']) ++ (y ++ n)) := by simp
    rw [shape]
    exact ((letter 'C' rfl).before (head.before ((bodies spelledYes).before (bodies spelledNo)))).anywhere
  | @repeatWhile c b condition nodes spelledCondition spelledBody =>
    have head : Passes Anything ('(' :: (c ++ [')'])) :=
      (passes_condition spelledCondition).enclose rfl fun s => ⟨s, rfl⟩
    have shape : "W(".toList ++ c ++ ')' :: b = ['W'] ++ ('(' :: (c ++ [')']) ++ b) := by simp
    rw [shape]
    exact ((letter 'W' rfl).before (head.before (bodies spelledBody))).anywhere
  | @count i j k b start stop step nodes spelledStart spelledStop spelledStep _ spelledBody =>
    have bounds : Passes Anything (i ++ (['-'] ++ (j ++ ([','] ++ k)))) :=
      (passes_int spelledStart).before ((letter '-' rfl).before
        ((passes_int spelledStop).before ((letter ',' rfl).before (passes_int spelledStep))))
    have head : Passes Anything ('(' :: (i ++ (['-'] ++ (j ++ ([','] ++ k))) ++ [')'])) :=
      bounds.enclose rfl fun _ => trivial
    have shape : "F(".toList ++ i ++ '-' :: j ++ ',' :: k ++ ')' :: b =
        ['F'] ++ ('(' :: (i ++ (['-'] ++ (j ++ ([','] ++ k))) ++ [')']) ++ b) := by simp
    rw [shape]
    exact ((letter 'F' rfl).before (head.before (bodies spelledBody))).anywhere
  | @select v t d value cases default spelledValue spelledCases spelledDefault =>
    have value : Passes Anything v := passes_verbatim spelledValue.verbatim
    have mark : Passes Anything "(D)".toList := (letter 'D' rfl).enclose rfl fun _ => trivial
    have inner : Passes Anything (v ++ (", ".toList ++ (t ++ ("(D)".toList ++ d)))) :=
      value.before ((passes_calm (List.all_eq_true.mp (by decide))).before
        ((passes_cases spelledCases bodies).before (mark.before (bodies spelledDefault))))
    have enclosed : Passes Anything ('(' :: (v ++ (", ".toList ++ (t ++ ("(D)".toList ++ d))) ++ [')'])) :=
      inner.enclose rfl fun _ => trivial
    have shape : "K(".toList ++ v ++ ", ".toList ++ t ++ "(D)".toList ++ d ++ [')'] =
        ['K'] ++ '(' :: (v ++ (", ".toList ++ (t ++ ("(D)".toList ++ d))) ++ [')']) := by simp
    rw [shape]
    exact ((letter 'K' rfl).before enclosed).anywhere

end

theorem passes_spells {depth : Nat} {t : List Char} {node : Node} (spelled : Spells depth t node) :
    Passes EndsToken t := by
  induction depth generalizing t node with
  | zero => exact passes_node spelled fun impossible => impossible.elim
  | succ depth ih => exact passes_node spelled fun spelledBody => passes_body spelledBody ih

theorem balanced_flag {flag : InitFlag} (valid : flag.Valid) : Balanced flag.chars := by
  cases flag with
  | pairing name =>
    have unescaped : Quoted.encode name.toList = name.toList := by
      refine Quoted.encode_eq_self fun c member => ?_
      have clear : c ∉ ['"', '\\'] := Text.not_mem_of_class (List.all_eq_true.mp valid.2.2 c member) (by decide)
      simpa using clear
    have literal := balanced_whole (Quoted.isWhole_encode name.toList)
    rw [unescaped] at literal
    have letter : Balanced ['R'] := balanced_char rfl rfl
    exact letter.append literal
  | _ => exact balanced_char rfl rfl

theorem balanced_barred {ts : List (List Char)} (all : ∀ t ∈ ts, Balanced t) : Balanced (barred ts) := by
  induction ts with
  | nil => exact balanced_nil
  | cons t ts ih =>
    obtain ⟨first, others⟩ := List.forall_mem_cons.mp all
    have bar : Balanced ['|'] := balanced_char rfl rfl
    exact bar.append (first.append (ih others))

theorem balanced_join {ts : List (List Char)} (all : ∀ t ∈ ts, Balanced t) : Balanced (join ts) := by
  cases ts with
  | nil => exact balanced_nil
  | cons t ts =>
    obtain ⟨first, others⟩ := List.forall_mem_cons.mp all
    rw [join_cons]
    exact first.append (balanced_barred others)

section

variable {literal : String}

theorem seek?_cons {c : Char} {s : List Char} (other : Text.strip? literal (c :: s) = none) :
    Text.seek? literal (c :: s) = Text.seek? literal s := by
  simp [Text.seek?, other]

/-- What is found is the rest of the text from some place on. -/
theorem seek?_length {s found : List Char} (run : Text.seek? literal s = some found) :
    found.length ≤ s.length := by
  induction s with
  | nil => cases run
  | cons c s ih =>
    simp only [Text.seek?] at run
    split at run
    · cases run
      exact Nat.le_refl _
    · have := ih run
      simp only [List.length_cons]
      omega

theorem seek?_here (nonempty : literal.toList ≠ []) (rest : List Char) :
    Text.seek? literal (literal.toList ++ rest) = some (literal.toList ++ rest) := by
  have here := Text.strip?_append literal rest
  obtain ⟨c, t, shape⟩ := List.exists_cons_of_ne_nil nonempty
  rw [shape, List.cons_append] at here ⊢
  simp [Text.seek?, here]

theorem seek?_append (nonempty : literal.toList ≠ []) (s rest : List Char) :
    ∃ found, Text.seek? literal (s ++ (literal.toList ++ rest)) = some found := by
  induction s with
  | nil => exact ⟨_, seek?_here nonempty rest⟩
  | cons c s ih =>
    obtain ⟨found, run⟩ := ih
    simp only [List.cons_append, Text.seek?]
    split
    · exact ⟨_, rfl⟩
    · exact ⟨found, run⟩

variable {m : Char} (isMark : literal.toList = ['|', m, '|'])
include isMark

theorem seek?_unbarred {t : List Char} (inside : ∀ c ∈ t, (c != '|') = true) (s : List Char) :
    Text.seek? literal (t ++ s) = Text.seek? literal s := by
  induction t with
  | nil => rfl
  | cons c t ih =>
    obtain ⟨first, others⟩ := List.forall_mem_cons.mp inside
    rw [List.cons_append, seek?_cons, ih others]
    refine strip?_eq_none fun rest same => ?_
    rw [isMark] at same
    exact absurd (List.cons.inj same).1 (by simpa using first)

theorem seek?_bar {c : Char} (other : c ≠ m) (s : List Char) :
    Text.seek? literal ('|' :: c :: s) = Text.seek? literal (c :: s) := by
  refine seek?_cons (strip?_eq_none fun rest same => ?_)
  rw [isMark] at same
  exact other (List.cons.inj (List.cons.inj same).2).1

theorem seek?_flags (other : ∀ flag : InitFlag, flag.chars ≠ [m]) {flags : List InitFlag}
    (valid : ∀ flag ∈ flags, flag.Valid) (rest : List Char) :
    Text.seek? literal (barred (flags.map InitFlag.chars) ++ '|' :: rest) =
      Text.seek? literal ('|' :: rest) := by
  induction flags with
  | nil => rfl
  | cons flag flags ih =>
    obtain ⟨validFlag, validTail⟩ := List.forall_mem_cons.mp valid
    have stop := endsToken_barred (flags.map InitFlag.chars) (endsToken_bar rest)
    have noMark := strip?_mark_flag isMark validFlag (other flag) false stop
    simp only [separator, Bool.false_eq_true, if_false, List.singleton_append] at noMark
    rw [List.map_cons, barred_cons, List.cons_append, List.append_assoc, seek?_cons noMark,
      seek?_unbarred isMark (InitFlag.bar_not_mem_chars validFlag), ih validTail]

/-- The mark of a section is not found among the flags. -/
theorem seek?_sections (other : ∀ flag : InitFlag, flag.chars ≠ [m]) (noStart : 'I' ≠ m) (noBar : '|' ≠ m)
    {flags : List InitFlag} (valid : ∀ flag ∈ flags, flag.Valid) (rest : List Char) :
    Text.seek? literal ("|I|".toList ++ (join (flags.map InitFlag.chars) ++ ("|S|".toList ++ rest))) =
      Text.seek? literal ("|S|".toList ++ rest) := by
  have start : ∀ s, Text.seek? literal ("|I|".toList ++ s) = Text.seek? literal ('|' :: s) := by
    intro s
    have letter : ∀ c ∈ ['I'], (c != '|') = true := List.forall_mem_singleton.mpr rfl
    exact (seek?_bar isMark noStart _).trans (seek?_unbarred isMark letter _)
  rw [start]
  cases flags with
  | nil => exact seek?_bar isMark noBar _
  | cons flag flags =>
    -- The bar behind `I` stands before the first flag as the others stand before theirs.
    have shape : '|' :: join ((flag :: flags).map InitFlag.chars) =
        barred ((flag :: flags).map InitFlag.chars) := by
      rw [List.map_cons, join_cons, barred_cons]
    rw [← List.cons_append, shape]
    exact seek?_flags isMark other valid _

end

section

variable {flags : List InitFlag} (valid : ∀ flag ∈ flags, flag.Valid)
include valid

theorem seek?_setup (rest : List Char) :
    Text.seek? "|S|" ("|I|".toList ++ (join (flags.map InitFlag.chars) ++ ("|S|".toList ++ rest))) =
      some ("|S|".toList ++ rest) := by
  have isMark : "|S|".toList = ['|', 'S', '|'] := rfl
  rw [seek?_sections isMark (fun _ => InitFlag.chars_ne_section.1) (by decide) (by decide) valid]
  exact seek?_here (by decide) rest

/-- The mark of the loop section is found behind the one of the setup section. -/
theorem seek?_loop (t rest : List Char) :
    ∃ found, Text.seek? "|L|" ("|I|".toList ++ (join (flags.map InitFlag.chars) ++
        ("|S|".toList ++ (t ++ ("|L|".toList ++ rest))))) = some found ∧
      found.length < ("|S|".toList ++ (t ++ ("|L|".toList ++ rest))).length := by
  have isMark : "|L|".toList = ['|', 'L', '|'] := rfl
  have behind : Text.seek? "|L|" ("|S|".toList ++ (t ++ ("|L|".toList ++ rest))) =
      Text.seek? "|L|" ("S|".toList ++ t ++ ("|L|".toList ++ rest)) := by
    rw [List.append_assoc]
    exact seek?_bar isMark (by decide) _
  have nonempty : "|L|".toList ≠ [] := by decide
  obtain ⟨found, run⟩ := seek?_append nonempty ("S|".toList ++ t) rest
  have short := seek?_length run
  refine ⟨found, ?_, ?_⟩
  · rw [seek?_sections isMark (fun _ => InitFlag.chars_ne_section.2) (by decide) (by decide) valid, behind, run]
  · simp only [List.length_append, String.length_toList] at short ⊢
    have marks : "|S|".length = 3 ∧ "S|".length = 2 := by decide
    omega

end

theorem passes_sections {ts us : List (List Char)} {setup loop : List Node}
    (spelled : List.Forall₂ (Spells maxDepth) ts setup) (spelledLoop : List.Forall₂ (Spells maxDepth) us loop) :
    Passes Anything ("|S|".toList ++ (join ts ++ ("|L|".toList ++ (join us ++ ['|'])))) := by
  have setupMark : Passes Anything "|S|".toList := passes_calm (List.all_eq_true.mp (by decide))
  have loopMark : Passes Anything "|L|".toList := passes_calm (List.all_eq_true.mp (by decide))
  have final : Passes Anything ['|'] := passes_char rfl
  have loopTokens := (passes_join spelledLoop passes_spells).append final fun _ => endsToken_bar _
  exact setupMark.before
    ((passes_join spelled passes_spells).append (loopMark.before loopTokens) fun _ => endsToken_bar _)

theorem Balanced.checkBalanced {t : List Char} (balanced : Balanced t) : checkBalanced t = .ok () := by
  have run := balanced [] 0 []
  rw [List.append_nil] at run
  exact run

theorem checkChars_eq_ok {s rest setup loop : List Char} (start : Text.strip? "|I|" s = some rest)
    (atSetup : Text.seek? "|S|" s = some setup) (atLoop : Text.seek? "|L|" s = some loop)
    (ordered : loop.length < setup.length) (final : s.getLast? = some '|') (balanced : checkBalanced s = .ok ())
    (fragments : checkFragments (withoutQuoted setup) = .ok ()) : checkChars s = .ok () := by
  have nonempty : s.isEmpty = false := by
    cases s with
    | nil => cases final
    | cons c s => rfl
  have notBehind : ¬ setup.length ≤ loop.length := by omega
  unfold checkChars
  rw [start, atSetup, atLoop, nonempty]
  simp only [if_neg notBehind, final, balanced]
  exact fragments

/-- A text that spells a program is passed by the last check. -/
theorem checkChars_of_spells {s : List Char} {p : Program} (spelled : SpellsProgram s p) :
    checkChars s = .ok () := by
  obtain @⟨flags, ts, us, setup, loop, valid, spelled, spelledLoop⟩ := spelled
  have passes := passes_sections spelled spelledLoop
  have atSetup := seek?_setup valid (join ts ++ ("|L|".toList ++ (join us ++ ['|'])))
  obtain ⟨found, atLoop, behind⟩ := seek?_loop valid (join ts) (join us ++ ['|'])
  have balancedFlags : Balanced (join (flags.map InitFlag.chars)) := by
    refine balanced_join fun t member => ?_
    obtain ⟨flag, inFlags, rfl⟩ := List.mem_map.mp member
    exact balanced_flag (valid flag inFlags)
  have mark : Passes Anything "|I|".toList := passes_calm (List.all_eq_true.mp (by decide))
  have balanced := mark.balanced.append (balancedFlags.append passes.balanced)
  have fragments : checkFragments (withoutQuoted
      ("|S|".toList ++ (join ts ++ ("|L|".toList ++ (join us ++ ['|']))))) = .ok () := by
    have assign := passes.assignments (s := []) trivial assignmentsPass_nil
    have condition := passes.conditions (s := []) trivial conditionsPass_nil
    rw [List.append_nil] at assign condition
    exact checkFragments_eq_ok assign condition
  have final : ("|I|".toList ++ (join (flags.map InitFlag.chars) ++
      ("|S|".toList ++ (join ts ++ ("|L|".toList ++ (join us ++ ['|'])))))).getLast? = some '|' := by
    simp only [← List.append_assoc, List.getLast?_concat]
  exact checkChars_eq_ok (Text.strip?_append _ _) atSetup atLoop behind final balanced.checkBalanced fragments

theorem check_of_parse {script : String} {p : Program} (run : parse script = .ok p) : check script = .ok () :=
  checkChars_of_spells (readProgram_sound (parse_eq_ok_iff.mp run))

/-- A quoted text may hold a mark, a bracket and the start of an assignment, and a name a quote. -/
theorem check_of_parse_quoted_mark :
    ∃ p : Program, parse "|I|R\"it's\"|S|G(S,1,=,'a|L|)G(')|L|F(007--3,1)\x7b\x7d|" = .ok p ∧
      check "|I|R\"it's\"|S|G(S,1,=,'a|L|)G(')|L|F(007--3,1)\x7b\x7d|" = .ok () := by
  have value : SpellsValue "'a|L|)G('".toList (readQuoted "'a|L|)G('".toList) := .quoted (by decide)
  have assign : Spells maxDepth "G(S,1,=,'a|L|)G(')".toList
      (.assign ⟨.string, 1, by decide, by decide⟩ .set (readQuoted "'a|L|)G('".toList)) := by
    have token := SpellsAssign.mk ⟨.string, 1, by decide, by decide⟩ .set value
    rw [spells_eq]
    exact .assign token
  have start : SpellsInt "007".toList 7 := ⟨⟨_, List.all_eq_true.mp (by decide), .inl rfl⟩, by decide⟩
  have stop : SpellsInt "-3".toList (-3) := ⟨⟨['3'], List.all_eq_true.mp (by decide), .inr rfl⟩, by decide⟩
  have step : SpellsInt "1".toList 1 := ⟨⟨_, List.all_eq_true.mp (by decide), .inl rfl⟩, by decide⟩
  have count : Spells maxDepth "F(007--3,1)\x7b\x7d".toList (.count 7 (-3) 1 []) :=
    SpellsNode.count start stop step (by decide) (SpellsBody.mk (.nil (R := Spells 63)))
  have valid : ∀ flag ∈ [InitFlag.pairing "it's"], flag.Valid := by
    simp [InitFlag.Valid]
    decide
  have text : "|I|R\"it's\"|S|G(S,1,=,'a|L|)G(')|L|F(007--3,1)\x7b\x7d|".toList =
      "|I|".toList ++ (join ([InitFlag.pairing "it's"].map InitFlag.chars) ++ ("|S|".toList ++
        (join ["G(S,1,=,'a|L|)G(')".toList] ++ ("|L|".toList ++
          (join ["F(007--3,1)\x7b\x7d".toList] ++ ['|']))))) := by
    decide
  have spelled := SpellsProgram.mk valid (.cons assign .nil) (.cons count .nil)
  rw [← text] at spelled
  have run := parse_eq_ok_iff.mpr (readProgram_complete spelled)
  exact ⟨_, run, check_of_parse run⟩

end RobotScript.Script
