import RobotScript.Proofs.Script.Spelling

namespace RobotScript.Script

variable {α β ε : Type}

theorem bind_eq_ok {x : Except ε α} {f : α → Except ε β} {b : β} (run : (x >>= f) = .ok b) :
    ∃ a, x = .ok a ∧ f a = .ok b := by
  cases x with
  | error fault => cases run
  | ok a => exact ⟨a, rfl, run⟩

theorem expect_eq_ok_iff {literal : String} {s rest : List Char} :
    expect literal s = .ok rest ↔ s = literal.toList ++ rest := by
  rw [← Text.strip?_eq_some_iff]
  unfold expect
  cases Text.strip? literal s <;> simp

theorem run_bind {x : Except ε α} {a : α} (run : x = .ok a) (f : α → Except ε β) : (x >>= f) = f a := by
  rw [run]
  rfl

theorem expect_bind (literal : String) (rest : List Char) (f : List Char → Except Fault α) :
    (expect literal (literal.toList ++ rest) >>= f) = f rest :=
  run_bind (expect_eq_ok_iff.mpr rfl) f

/-- A reader takes nothing but spellings off the front of a text, and takes each spelling whole if
what follows is an end for it. -/
structure Reads (read : Reader α) (spells : List Char → α → Prop) (ends : List Char → Prop) : Prop where
  sound : ∀ {s : List Char} {a : α} {rest : List Char}, read s = .ok (a, rest) →
    ∃ t, spells t a ∧ s = t ++ rest
  complete : ∀ {t : List Char} {a : α} {rest : List Char}, spells t a → ends rest →
    read (t ++ rest) = .ok (a, rest)

/-- A value without quotes ends where the text does or at a delimiter. -/
def EndsValue (rest : List Char) : Prop := Text.Stops (!isDelimiter ·) rest

theorem endsValue_cons {c : Char} (rest : List Char) (delimiter : isDelimiter c = true) :
    EndsValue (c :: rest) :=
  Text.stops_cons rest (by simp [delimiter])

theorem not_isDelimiter_of_isPlainChar {c : Char} (plain : isPlainChar c = true) :
    (!isDelimiter c) = true := by
  simp only [isDelimiter, List.mem_cons, List.not_mem_nil, or_false, Bool.not_eq_true',
    decide_eq_false_iff_not, not_or]
  refine ⟨?_, ?_, ?_, ?_, ?_, ?_⟩ <;> rintro rfl <;> exact absurd plain (by decide)

theorem not_isQuote_of_isPlainChar {c : Char} (plain : isPlainChar c = true) :
    Quoted.isQuote c = false := by
  simp only [Quoted.isQuote, Bool.or_eq_false_iff, beq_eq_false_iff_ne]
  constructor <;> rintro rfl <;> exact absurd plain (by decide)

theorem readValue_plain {t rest : List Char} (nonempty : t ≠ [])
    (plain : ∀ c ∈ t, isPlainChar c = true) (stop : EndsValue rest) :
    readValue (t ++ rest) = match Symbol.ofChars? t with
      | some name => .ok (.symbol name, rest)
      | none => if isNumeric t then .ok (readNumber t, rest) else .error ⟨t ++ rest, .noValue t⟩ := by
  obtain ⟨c, u, rfl⟩ := List.exists_cons_of_ne_nil nonempty
  have inside : ∀ d ∈ c :: u, (!isDelimiter d) = true := fun d member =>
    not_isDelimiter_of_isPlainChar (plain d member)
  have first := not_isQuote_of_isPlainChar (plain c (by simp))
  unfold readValue
  rw [Text.takeWhile_append_of_stops inside stop, Text.dropWhile_append_of_stops inside stop]
  simp only [List.cons_append, List.head?_cons, Option.map_some, Option.getD_some, first]
  cases Symbol.ofChars? (c :: u) <;> rfl

theorem readValue_quoted {t : List Char} (whole : Quoted.isWhole t = true) (rest : List Char) :
    readValue (t ++ rest) = .ok (readQuoted t, rest) := by
  have split := Quoted.split?_append_of_isWhole whole rest
  obtain ⟨quote, inner, isQuote, _, rfl⟩ := Quoted.isWhole_iff.mp whole
  unfold readValue
  simp only [List.cons_append, List.head?_cons, Option.map_some, Option.getD_some, isQuote, if_true]
  rw [List.cons_append] at split
  rw [split]

theorem readValue_reads : Reads readValue SpellsValue EndsValue where
  sound := by
    intro s v rest run
    unfold readValue at run
    split at run
    · split at run
      · rename_i literal after found
        obtain ⟨whole, split⟩ := Quoted.isWhole_of_split? found
        cases run
        exact ⟨literal, .quoted whole, split⟩
      · cases run
    · dsimp only at run
      have split := List.takeWhile_append_dropWhile (p := (!isDelimiter ·)) (l := s)
      split at run
      · rename_i name found
        cases run
        rw [Symbol.chars_of_ofChars? found] at split
        exact ⟨name.chars, .symbol name, split.symm⟩
      · split at run
        · rename_i numeric
          cases run
          exact ⟨_, .number numeric, split.symm⟩
        · cases run
  complete := by
    intro t v rest spells stop
    cases spells with
    | symbol name =>
      obtain ⟨_, _, shape, _⟩ := name.chars_shape
      rw [readValue_plain (by simp [shape]) (fun _ => isPlainChar_of_mem_symbol) stop,
        Symbol.ofChars?_chars]
    | number numeric =>
      rw [readValue_plain (Verbatim.number numeric).ne_nil (isPlainChar_of_isNumeric numeric) stop,
        ofChars?_of_isNumeric numeric]
      simp [numeric]
    | quoted whole => exact readValue_quoted whole rest

theorem readComparison_reads :
    Reads readComparison (fun t op => t = op.wire.toList) (fun rest => ∃ r, rest = ',' :: r) where
  sound := by
    intro s op rest run
    unfold readComparison at run
    split at run
    · rename_i found search
      cases run
      obtain ⟨tried, _, strip⟩ := List.exists_of_findSome?_eq_some search
      obtain ⟨after, found, same⟩ := Option.map_eq_some_iff.mp strip
      cases same
      exact ⟨_, rfl, Text.strip?_eq_some_iff.mp found⟩
    · cases run
  complete := by
    rintro t op rest rfl ⟨r, rfl⟩
    cases op <;> rfl

theorem readCondition_reads : Reads readCondition SpellsCondition EndsValue where
  sound := by
    intro s condition rest run
    obtain ⟨s₁, letter, run⟩ := bind_eq_ok run
    obtain ⟨⟨op, s₂⟩, operator, run⟩ := bind_eq_ok run
    obtain ⟨s₃, comma, run⟩ := bind_eq_ok run
    obtain ⟨⟨left, s₄⟩, atLeft, run⟩ := bind_eq_ok run
    obtain ⟨s₅, comma', run⟩ := bind_eq_ok run
    obtain ⟨⟨right, s₆⟩, atRight, run⟩ := bind_eq_ok run
    cases run
    obtain ⟨_, rfl, rfl⟩ := readComparison_reads.sound operator
    obtain ⟨l, spellsLeft, rfl⟩ := readValue_reads.sound atLeft
    obtain ⟨r, spellsRight, rfl⟩ := readValue_reads.sound atRight
    refine ⟨_, .mk op spellsLeft spellsRight, ?_⟩
    rw [expect_eq_ok_iff.mp letter, expect_eq_ok_iff.mp comma, expect_eq_ok_iff.mp comma']
    simp
  complete := by
    intro t condition rest spells stop
    cases spells with
    | @mk op l r left right spellsLeft spellsRight =>
      have operator := readComparison_reads.complete (t := op.wire.toList) rfl
        ⟨l ++ ',' :: (r ++ rest), rfl⟩
      have atLeft := readValue_reads.complete spellsLeft
        (endsValue_cons (c := ',') (r ++ rest) (by decide))
      have atRight := readValue_reads.complete spellsRight stop
      simp only [List.cons_append, List.append_assoc]
      refine (expect_bind "O" _ _).trans ?_
      refine (run_bind operator _).trans ?_
      refine (expect_bind "," _ _).trans ?_
      refine (run_bind atLeft _).trans ?_
      refine (expect_bind "," _ _).trans ?_
      exact run_bind atRight _

theorem readInt_reads : Reads readInt SpellsInt (Text.Stops isDigit) where
  sound := by
    intro s n rest run
    have digit : ∀ t : List Char, ∀ c ∈ t.takeWhile isDigit, isDigit c = true := fun _ _ =>
      List.mem_takeWhile_imp
    unfold readInt at run
    split at run
    rename_i sign t cut
    split at run
    · rename_i m value
      cases run
      split at cut
      · cases cut
        exact ⟨_, ⟨⟨_, digit t, .inr rfl⟩, value⟩, by simp⟩
      · cases cut
        exact ⟨_, ⟨⟨_, digit s, .inl rfl⟩, value⟩, by simp⟩
    · cases run
  complete := by
    rintro t n rest ⟨⟨ds, digit, rfl | rfl⟩, value⟩ stop
    · have unsigned : ∀ u, t ++ rest ≠ '-' :: u := by
        intro u same
        cases t with
        | nil => simp [readInt32?, readInt?, splitSign, readDigits?] at value
        | cons c t =>
          cases (List.cons.inj same).1
          exact absurd (digit '-' (by simp)) (by decide)
      unfold readInt
      split
      rename_i sign u cut
      split at cut
      · rename_i v same
        exact absurd same (unsigned v)
      · cases cut
        simp [Text.takeWhile_append_of_stops digit stop, Text.dropWhile_append_of_stops digit stop, value]
    · simp [readInt, Text.takeWhile_append_of_stops digit stop,
        Text.dropWhile_append_of_stops digit stop, value]

theorem readWord_eq (s : List Char) :
    readWord s =
      if s.takeWhile isCommandChar = [] then .error ⟨s, .noToken⟩
      else .ok (ofWord (s.takeWhile isCommandChar), s.dropWhile isCommandChar) := by
  simp only [readWord, ofWord, List.isEmpty_iff]
  split
  · rfl
  · split
    · rfl
    · split <;> simp only [*]

theorem readWord_reads :
    Reads readWord (fun t node => t ≠ [] ∧ (∀ c ∈ t, isCommandChar c = true) ∧ node = ofWord t)
      (Text.Stops isCommandChar) where
  sound := by
    intro s node rest run
    rw [readWord_eq] at run
    split at run
    · cases run
    · rename_i nonempty
      cases run
      exact ⟨_, ⟨nonempty, fun _ => List.mem_takeWhile_imp, rfl⟩, List.takeWhile_append_dropWhile.symm⟩
  complete := by
    rintro t node rest ⟨nonempty, inWord, rfl⟩ stop
    rw [readWord_eq, Text.takeWhile_append_of_stops inWord stop,
      Text.dropWhile_append_of_stops inWord stop, if_neg nonempty]

theorem readSlotType_eq_ok_iff {s rest : List Char} {type : SlotType} :
    readSlotType s = .ok (type, rest) ↔ s = type.code :: rest := by
  constructor
  · intro run
    unfold readSlotType at run
    split at run
    · cases run
    · split at run
      · rename_i found
        cases run
        rw [SlotType.code_of_ofCode? found]
      · cases run
  · rintro rfl
    simp [readSlotType, SlotType.ofCode?_code]

theorem readSlotIndex_eq_ok_iff {s rest : List Char} {type : SlotType} {slot : Slot} :
    readSlotIndex type s = .ok (slot, rest) ↔ slot.type = type ∧ s = digits slot.index ++ rest := by
  constructor
  · intro run
    unfold readSlotIndex at run
    split at run
    · cases run
    · split at run
      · rename_i found
        split at found
        · rename_i digit
          cases run
          obtain ⟨sameType, sameIndex⟩ := Slot.eq_of_ofIndex? found
          refine ⟨sameType, ?_⟩
          rw [sameIndex, digits_ofDigits_singleton digit]
          rfl
        · cases found
      · cases run
  · rintro ⟨rfl, rfl⟩
    obtain ⟨c, single, digit, value⟩ := slot.digits_index
    rw [single]
    simp [readSlotIndex, digit, value, Slot.ofIndex?_index]

theorem readAssignOp_eq_ok_iff {s rest : List Char} {op : AssignOp} :
    readAssignOp s = .ok (op, rest) ↔ s = op.symbol.toList ++ rest := by
  constructor
  · intro run
    unfold readAssignOp at run
    split at run <;> cases run <;> rfl
  · rintro rfl
    cases op <;> rfl

theorem readAssign_reads : Reads readAssign SpellsAssign (fun _ => True) where
  sound := by
    intro s node rest run
    obtain ⟨s₁, start, run⟩ := bind_eq_ok run
    obtain ⟨⟨type, s₂⟩, atType, run⟩ := bind_eq_ok run
    obtain ⟨s₃, comma, run⟩ := bind_eq_ok run
    obtain ⟨⟨target, s₄⟩, atIndex, run⟩ := bind_eq_ok run
    obtain ⟨s₅, comma', run⟩ := bind_eq_ok run
    obtain ⟨⟨op, s₆⟩, atOp, run⟩ := bind_eq_ok run
    obtain ⟨s₇, comma'', run⟩ := bind_eq_ok run
    obtain ⟨⟨value, s₈⟩, atValue, run⟩ := bind_eq_ok run
    obtain ⟨s₉, close, run⟩ := bind_eq_ok run
    cases run
    obtain ⟨rfl, split⟩ := readSlotIndex_eq_ok_iff.mp atIndex
    obtain ⟨v, spells, rfl⟩ := readValue_reads.sound atValue
    refine ⟨_, .mk target op spells, ?_⟩
    rw [expect_eq_ok_iff.mp start, readSlotType_eq_ok_iff.mp atType, expect_eq_ok_iff.mp comma, split,
      expect_eq_ok_iff.mp comma', readAssignOp_eq_ok_iff.mp atOp, expect_eq_ok_iff.mp comma'',
      expect_eq_ok_iff.mp close]
    simp
  complete := by
    intro t node rest spells _
    cases spells with
    | @mk target op v value spells =>
      have atValue := readValue_reads.complete spells (endsValue_cons (c := ')') rest (by decide))
      simp only [List.cons_append, List.append_assoc, List.nil_append]
      refine (expect_bind "G(" _ _).trans ?_
      refine (run_bind (readSlotType_eq_ok_iff.mpr rfl) _).trans ?_
      refine (expect_bind "," _ _).trans ?_
      refine (run_bind (readSlotIndex_eq_ok_iff.mpr ⟨rfl, rfl⟩) _).trans ?_
      refine (expect_bind "," _ _).trans ?_
      refine (run_bind (readAssignOp_eq_ok_iff.mpr rfl) _).trans ?_
      refine (expect_bind "," _ _).trans ?_
      refine (run_bind atValue _).trans ?_
      exact expect_bind ")" rest _

/-- A token ends where the text does or at a bar. -/
def EndsToken (rest : List Char) : Prop := Text.Stops (· != '|') rest

theorem endsToken_bar (rest : List Char) : EndsToken ('|' :: rest) := Text.stops_cons rest rfl

theorem EndsToken.cases {rest : List Char} (stop : EndsToken rest) : rest = [] ∨ ∃ r, rest = '|' :: r := by
  cases rest with
  | nil => exact .inl rfl
  | cons c r =>
    have bar : (c != '|') = false := stop c rfl
    exact .inr ⟨r, by rw [show c = '|' by simpa using bar]⟩

/-- A bar in front of a token does not close a body. -/
theorem strip?_close_join {t : List Char} (starts : ∃ c u, t = c :: u ∧ isCommandChar c = true)
    (ts : List (List Char)) (rest : List Char) :
    Text.strip? "|\x7d" ('|' :: (join (t :: ts) ++ rest)) = none := by
  obtain ⟨c, u, rfl, inWord⟩ := starts
  rw [join_cons]
  cases found : Text.strip? "|\x7d" ('|' :: (c :: u ++ barred ts ++ rest)) with
  | none => rfl
  | some after =>
    have same := Text.strip?_eq_some_iff.mp found
    cases (List.cons.inj (List.cons.inj same).2).1
    exact absurd inWord (by decide)

section Bodies

variable {token : Reader Node} {spells : List Char → Node → Prop}

theorem readTokens_sound (reads : Reads token spells EndsToken) {count : Nat} {s rest : List Char}
    {nodes : List Node} (run : readTokens token count s = .ok (nodes, rest)) :
    ∃ ts, ts ≠ [] ∧ List.Forall₂ spells ts nodes ∧ s = join ts ++ "|\x7d".toList ++ rest := by
  induction count generalizing s nodes with
  | zero => cases run
  | succ count ih =>
    obtain ⟨⟨node, s₁⟩, atToken, run⟩ := bind_eq_ok run
    obtain ⟨t, spelled, split⟩ := reads.sound atToken
    dsimp only at run
    split at run
    · rename_i after close
      cases run
      refine ⟨[t], by simp, .cons spelled .nil, ?_⟩
      rw [split, Text.strip?_eq_some_iff.mp close, join_singleton, List.append_assoc]
    · obtain ⟨s₂, bar, run⟩ := bind_eq_ok run
      obtain ⟨⟨tail, s₃⟩, atTail, run⟩ := bind_eq_ok run
      cases run
      obtain ⟨ts, nonempty, all, rfl⟩ := ih atTail
      obtain ⟨u, us, rfl⟩ := List.exists_cons_of_ne_nil nonempty
      refine ⟨t :: u :: us, by simp, .cons spelled all, ?_⟩
      rw [split, expect_eq_ok_iff.mp bar, join_cons_cons]
      simp

theorem readTokens_complete (reads : Reads token spells EndsToken)
    (starts : ∀ {t node}, spells t node → ∃ c u, t = c :: u ∧ isCommandChar c = true)
    {ts : List (List Char)} {nodes : List Node} (all : List.Forall₂ spells ts nodes)
    (nonempty : ts ≠ []) {count : Nat} (room : ts.length ≤ count) (rest : List Char) :
    readTokens token count (join ts ++ "|\x7d".toList ++ rest) = .ok (nodes, rest) := by
  induction all generalizing count with
  | nil => exact absurd rfl nonempty
  | @cons t node ts nodes spelled all ih =>
    obtain ⟨count, rfl⟩ : ∃ k, count = k + 1 := Nat.exists_eq_succ_of_ne_zero (by simp at room; omega)
    cases all with
    | nil =>
      rw [join_singleton, List.append_assoc]
      refine (run_bind (reads.complete spelled (endsToken_bar _)) _).trans ?_
      rfl
    | @cons u next us nodes spelledNext all =>
      have fewer : (u :: us).length ≤ count := by simpa using room
      have tail := ih (by simp) fewer
      have unclosed := strip?_close_join (starts spelledNext) us ("|\x7d".toList ++ rest)
      rw [← List.append_assoc] at unclosed
      rw [join_cons_cons, List.append_assoc, List.append_assoc, List.cons_append, ← List.append_assoc]
      refine (run_bind (reads.complete spelled (endsToken_bar _)) _).trans ?_
      simp only [unclosed]
      refine (expect_bind "|" _ _).trans ?_
      exact run_bind tail _

theorem readBody_none_reads : Reads (readBody none) (fun _ _ => False) (fun _ => True) where
  sound := by
    intro s nodes rest run
    obtain ⟨_, _, run⟩ := bind_eq_ok run
    cases run
  complete := fun impossible => impossible.elim

theorem readBody_reads (reads : Reads token spells EndsToken)
    (starts : ∀ {t node}, spells t node → ∃ c u, t = c :: u ∧ isCommandChar c = true) :
    Reads (readBody (some token)) (SpellsBody spells) (fun _ => True) where
  sound := by
    intro s nodes rest run
    obtain ⟨s₁, brace, run⟩ := bind_eq_ok run
    dsimp only at run
    split at run
    · cases run
      exact ⟨_, .mk .nil, expect_eq_ok_iff.mp brace⟩
    · obtain ⟨s₂, bar, run⟩ := bind_eq_ok run
      obtain ⟨ts, nonempty, all, split⟩ := readTokens_sound reads run
      refine ⟨_, .mk all, ?_⟩
      rw [expect_eq_ok_iff.mp brace, expect_eq_ok_iff.mp bar, split]
      simp [body, nonempty]
  complete := by
    intro t nodes rest spelled _
    cases spelled with
    | @mk ts nodes all =>
      by_cases empty : ts = []
      · subst empty
        cases all
        rfl
      · have room : ts.length ≤ (join ts ++ "|\x7d".toList ++ rest).length := by
          have := length_le_join ts
          simp
          omega
        have tokens := readTokens_complete reads starts all empty room rest
        simp only [body, List.isEmpty_iff, empty, if_false, List.append_assoc] at tokens ⊢
        refine (expect_bind "\x7b" _ _).trans ?_
        refine (expect_bind "|" _ _).trans ?_
        exact tokens

end Bodies

section Nodes

variable {body : Reader (List Node)} {spells : List Char → List Node → Prop}

theorem readCases_sound (reads : Reads body spells (fun _ => True)) {count : Nat} {s rest : List Char}
    {cases : List (Value × List Node)} {default : List Node}
    (run : readCases body count s = .ok ((cases, default), rest)) :
    ∃ t d, SpellsCases spells t cases ∧ spells d default ∧ s = t ++ "(D)".toList ++ d ++ ')' :: rest := by
  induction count generalizing s cases with
  | zero => cases run
  | succ count ih =>
    obtain ⟨s₁, paren, run⟩ := bind_eq_ok run
    split at run
    · rename_i after isDefault
      obtain ⟨⟨nodes, s₂⟩, atBody, run⟩ := bind_eq_ok run
      obtain ⟨s₃, close, run⟩ := bind_eq_ok run
      cases run
      obtain ⟨d, spelled, split⟩ := reads.sound atBody
      refine ⟨[], d, .nil, spelled, ?_⟩
      rw [expect_eq_ok_iff.mp paren, Text.strip?_eq_some_iff.mp isDefault, split, expect_eq_ok_iff.mp close]
      simp
    · obtain ⟨⟨value, s₂⟩, atValue, run⟩ := bind_eq_ok run
      obtain ⟨s₃, close, run⟩ := bind_eq_ok run
      obtain ⟨⟨nodes, s₄⟩, atBody, run⟩ := bind_eq_ok run
      obtain ⟨s₅, blank, run⟩ := bind_eq_ok run
      obtain ⟨⟨⟨tail, last⟩, s₆⟩, atTail, run⟩ := bind_eq_ok run
      cases run
      obtain ⟨v, spelledValue, splitValue⟩ := readValue_reads.sound atValue
      obtain ⟨b, spelledBody, splitBody⟩ := reads.sound atBody
      obtain ⟨t, d, spelledTail, spelledDefault, splitTail⟩ := ih atTail
      refine ⟨_, d, .cons spelledValue spelledBody spelledTail, spelledDefault, ?_⟩
      rw [expect_eq_ok_iff.mp paren, splitValue, expect_eq_ok_iff.mp close, splitBody,
        expect_eq_ok_iff.mp blank, splitTail]
      simp

theorem strip?_default_value {v : List Char} {value : Value} (spelled : SpellsValue v value)
    (rest : List Char) : Text.strip? "D)" (v ++ rest) = none := by
  obtain ⟨c, u, rfl, other⟩ := spelled.verbatim.starts
  cases found : Text.strip? "D)" (c :: u ++ rest) with
  | none => rfl
  | some after => exact absurd (List.cons.inj (Text.strip?_eq_some_iff.mp found)).1 other

theorem readCases_complete (reads : Reads body spells (fun _ => True)) {t d : List Char}
    {cases : List (Value × List Node)} {default : List Node} (spelled : SpellsCases spells t cases)
    (spelledDefault : spells d default) {count : Nat} (room : cases.length < count) (rest : List Char) :
    readCases body count (t ++ "(D)".toList ++ d ++ ')' :: rest) = .ok ((cases, default), rest) := by
  induction spelled generalizing count with
  | nil =>
    obtain ⟨count, rfl⟩ : ∃ k, count = k + 1 := Nat.exists_eq_succ_of_ne_zero (by omega)
    simp only [List.nil_append, List.append_assoc]
    refine (expect_bind "(" _ _).trans ?_
    refine (run_bind (reads.complete spelledDefault trivial) _).trans ?_
    exact expect_bind ")" rest _
  | @cons v b t value nodes cases spelledValue spelledBody spelledTail ih =>
    obtain ⟨count, rfl⟩ : ∃ k, count = k + 1 := Nat.exists_eq_succ_of_ne_zero (by omega)
    have fewer : cases.length < count := by simpa using room
    have tail := ih fewer
    simp only [List.cons_append, List.append_assoc] at tail ⊢
    generalize t ++ ("(D)".toList ++ (d ++ ')' :: rest)) = after at tail ⊢
    have isCase := strip?_default_value spelledValue (')' :: (b ++ ' ' :: after))
    have atValue := readValue_reads.complete spelledValue
      (endsValue_cons (c := ')') (b ++ ' ' :: after) (by decide))
    refine (expect_bind "(" (v ++ ')' :: (b ++ ' ' :: after)) _).trans ?_
    simp only [isCase]
    refine (run_bind atValue _).trans ?_
    refine (expect_bind ")" _ _).trans ?_
    refine (run_bind (reads.complete spelledBody trivial) _).trans ?_
    refine (expect_bind " " _ _).trans ?_
    exact run_bind tail _

theorem SpellsCases.length_le {t : List Char} {cases : List (Value × List Node)}
    (spelled : SpellsCases spells t cases) : cases.length ≤ t.length := by
  induction spelled with
  | nil => simp
  | cons _ _ _ ih =>
    simp only [List.length_cons, List.length_append]
    omega

theorem SpellsNode.starts {t : List Char} {node : Node} (spelled : SpellsNode spells t node) :
    ∃ c u, t = c :: u ∧ isCommandChar c = true := by
  cases spelled with
  | word nonempty inWord =>
    obtain ⟨c, u, rfl⟩ := List.exists_cons_of_ne_nil nonempty
    exact ⟨c, u, rfl, inWord c (by simp)⟩
  | assign spelled =>
    cases spelled
    exact ⟨'G', _, rfl, by decide⟩
  | branch => exact ⟨'C', _, rfl, by decide⟩
  | repeatWhile => exact ⟨'W', _, rfl, by decide⟩
  | count => exact ⟨'F', _, rfl, by decide⟩
  | select => exact ⟨'K', _, rfl, by decide⟩

/-- A word is not taken for the start of another token: behind it a bar stands, not a parenthesis. -/
theorem readNodeWith_word {t rest : List Char} (nonempty : t ≠ [])
    (inWord : ∀ c ∈ t, isCommandChar c = true) (stop : EndsToken rest) :
    readNodeWith body (t ++ rest) = readWord (t ++ rest) := by
  obtain ⟨c, u, rfl⟩ := List.exists_cons_of_ne_nil nonempty
  have second : ∀ after, u ++ rest ≠ '(' :: after := by
    intro after same
    cases u with
    | nil =>
      rcases stop.cases with empty | ⟨r, bar⟩
      · simp [empty] at same
      · simp [bar] at same
    | cons d u =>
      cases (List.cons.inj same).1
      exact absurd (inWord '(' (by simp)) (by decide)
  unfold readNodeWith
  split
  · rename_i after same
    exact absurd (List.cons.inj same).2 (second after)
  · rename_i after same
    exact absurd (List.cons.inj same).2 (second after)
  · rename_i after same
    exact absurd (List.cons.inj same).2 (second after)
  · rename_i after same
    exact absurd (List.cons.inj same).2 (second after)
  · rename_i after same
    exact absurd (List.cons.inj same).2 (second after)
  · rfl

theorem readNodeWith_sound (reads : Reads body spells (fun _ => True)) {s rest : List Char} {node : Node}
    (run : readNodeWith body s = .ok (node, rest)) : ∃ t, SpellsNode spells t node ∧ s = t ++ rest := by
  unfold readNodeWith at run
  split at run
  · obtain ⟨⟨condition, s₁⟩, atCondition, run⟩ := bind_eq_ok run
    obtain ⟨s₂, close, run⟩ := bind_eq_ok run
    obtain ⟨⟨yes, s₃⟩, atYes, run⟩ := bind_eq_ok run
    obtain ⟨⟨no, s₄⟩, atNo, run⟩ := bind_eq_ok run
    cases run
    obtain ⟨c, spelledCondition, rfl⟩ := readCondition_reads.sound atCondition
    obtain ⟨y, spelledYes, rfl⟩ := reads.sound atYes
    obtain ⟨n, spelledNo, rfl⟩ := reads.sound atNo
    refine ⟨_, .branch spelledCondition spelledYes spelledNo, ?_⟩
    rw [expect_eq_ok_iff.mp close]
    simp
  · obtain ⟨⟨condition, s₁⟩, atCondition, run⟩ := bind_eq_ok run
    obtain ⟨s₂, close, run⟩ := bind_eq_ok run
    obtain ⟨⟨nodes, s₃⟩, atBody, run⟩ := bind_eq_ok run
    cases run
    obtain ⟨c, spelledCondition, rfl⟩ := readCondition_reads.sound atCondition
    obtain ⟨b, spelledBody, rfl⟩ := reads.sound atBody
    refine ⟨_, .repeatWhile spelledCondition spelledBody, ?_⟩
    rw [expect_eq_ok_iff.mp close]
    simp
  · obtain ⟨⟨start, s₁⟩, atStart, run⟩ := bind_eq_ok run
    obtain ⟨s₂, dash, run⟩ := bind_eq_ok run
    obtain ⟨⟨stop, s₃⟩, atStop, run⟩ := bind_eq_ok run
    obtain ⟨s₄, comma, run⟩ := bind_eq_ok run
    obtain ⟨⟨step, s₅⟩, atStep, run⟩ := bind_eq_ok run
    obtain ⟨s₆, close, run⟩ := bind_eq_ok run
    dsimp only at run
    split at run
    · cases run
    · rename_i nonzero
      obtain ⟨⟨nodes, s₇⟩, atBody, run⟩ := bind_eq_ok run
      cases run
      obtain ⟨i, spelledStart, rfl⟩ := readInt_reads.sound atStart
      obtain ⟨j, spelledStop, rfl⟩ := readInt_reads.sound atStop
      obtain ⟨k, spelledStep, rfl⟩ := readInt_reads.sound atStep
      obtain ⟨b, spelledBody, rfl⟩ := reads.sound atBody
      refine ⟨_, .count spelledStart spelledStop spelledStep nonzero spelledBody, ?_⟩
      rw [expect_eq_ok_iff.mp dash, expect_eq_ok_iff.mp comma, expect_eq_ok_iff.mp close]
      simp
  · obtain ⟨⟨value, s₁⟩, atValue, run⟩ := bind_eq_ok run
    obtain ⟨s₂, comma, run⟩ := bind_eq_ok run
    obtain ⟨⟨⟨cases, default⟩, s₃⟩, atCases, run⟩ := bind_eq_ok run
    cases run
    obtain ⟨v, spelledValue, rfl⟩ := readValue_reads.sound atValue
    obtain ⟨t, d, spelledCases, spelledDefault, split⟩ := readCases_sound reads atCases
    refine ⟨_, .select spelledValue spelledCases spelledDefault, ?_⟩
    rw [expect_eq_ok_iff.mp comma, split]
    simp
  · obtain ⟨t, spelled, split⟩ := readAssign_reads.sound run
    exact ⟨t, .assign spelled, split⟩
  · obtain ⟨t, ⟨nonempty, inWord, rfl⟩, split⟩ := readWord_reads.sound run
    exact ⟨t, .word nonempty inWord, split⟩

theorem readNodeWith_complete (reads : Reads body spells (fun _ => True)) {t rest : List Char}
    {node : Node} (spelled : SpellsNode spells t node) (stop : EndsToken rest) :
    readNodeWith body (t ++ rest) = .ok (node, rest) := by
  cases spelled with
  | word nonempty inWord =>
    rw [readNodeWith_word nonempty inWord stop]
    refine readWord_reads.complete ⟨nonempty, inWord, rfl⟩ ?_
    rcases stop.cases with rfl | ⟨r, rfl⟩
    · exact Text.stops_nil _
    · exact Text.stops_cons r (by decide)
  | assign spelled =>
    have run : readAssign (t ++ rest) = .ok (node, rest) := readAssign_reads.complete spelled trivial
    cases spelled
    exact run
  | @branch c y n condition yes no spelledCondition spelledYes spelledNo =>
    simp only [List.cons_append, List.append_assoc]
    have atCondition := readCondition_reads.complete spelledCondition
      (endsValue_cons (c := ')') (y ++ (n ++ rest)) (by decide))
    refine (run_bind atCondition _).trans ?_
    refine (expect_bind ")" _ _).trans ?_
    refine (run_bind (reads.complete spelledYes trivial) _).trans ?_
    exact run_bind (reads.complete spelledNo trivial) _
  | @repeatWhile c b condition nodes spelledCondition spelledBody =>
    simp only [List.cons_append, List.append_assoc]
    have atCondition := readCondition_reads.complete spelledCondition
      (endsValue_cons (c := ')') (b ++ rest) (by decide))
    refine (run_bind atCondition _).trans ?_
    refine (expect_bind ")" _ _).trans ?_
    exact run_bind (reads.complete spelledBody trivial) _
  | @count i j k b start stop step nodes spelledStart spelledStop spelledStep nonzero spelledBody =>
    simp only [List.cons_append, List.append_assoc]
    have atStart := readInt_reads.complete spelledStart
      (Text.stops_cons (c := '-') (j ++ ',' :: (k ++ ')' :: (b ++ rest))) (by decide))
    have atStop := readInt_reads.complete spelledStop
      (Text.stops_cons (c := ',') (k ++ ')' :: (b ++ rest)) (by decide))
    have atStep := readInt_reads.complete spelledStep
      (Text.stops_cons (c := ')') (b ++ rest) (by decide))
    refine (run_bind atStart _).trans ?_
    refine (expect_bind "-" _ _).trans ?_
    refine (run_bind atStop _).trans ?_
    refine (expect_bind "," _ _).trans ?_
    refine (run_bind atStep _).trans ?_
    refine (expect_bind ")" _ _).trans ?_
    simp only [nonzero, if_false]
    exact run_bind (reads.complete spelledBody trivial) _
  | @select v t d value cases default spelledValue spelledCases spelledDefault =>
    have room : cases.length < (t ++ "(D)".toList ++ d ++ ')' :: rest).length + 1 := by
      have := spelledCases.length_le
      simp
      omega
    have atCases := readCases_complete reads spelledCases spelledDefault room rest
    have atValue := readValue_reads.complete spelledValue
      (endsValue_cons (c := ',') (' ' :: (t ++ "(D)".toList ++ d ++ ')' :: rest)) (by decide))
    simp only [List.append_assoc, List.cons_append, List.nil_append] at atCases atValue ⊢
    refine (run_bind atValue _).trans ?_
    refine (expect_bind ", " _ _).trans ?_
    exact run_bind atCases _

end Nodes

theorem spells_starts {depth : Nat} {t : List Char} {node : Node} (spelled : Spells depth t node) :
    ∃ c u, t = c :: u ∧ isCommandChar c = true := by
  rw [spells_eq] at spelled
  exact spelled.starts

/-- The reader of tokens takes exactly their spellings, at every depth. -/
theorem readNode_reads (depth : Nat) : Reads (readNode depth) (Spells depth) EndsToken := by
  induction depth with
  | zero =>
    exact ⟨readNodeWith_sound readBody_none_reads, readNodeWith_complete readBody_none_reads⟩
  | succ depth ih =>
    have bodies := readBody_reads ih spells_starts
    exact ⟨readNodeWith_sound bodies, readNodeWith_complete bodies⟩

end RobotScript.Script
