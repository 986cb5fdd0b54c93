import RobotScript.Proofs.Script.Sections

namespace RobotScript.Script

namespace Grammar

/-- The letter of a part of the robot, or a pairing name in its frame. -/
inductive Flag : List Char → Prop
  | letter {c : Char} : c ∈ ['E', 'B', 'M', 'T', 'A', 'V'] → Flag [c]
  | pairing {name : List Char} : name ≠ [] → name.length ≤ 32 →
      (∀ c ∈ name, Text.isControl c = false ∧ c ∉ ['"', '\\', '|', '{', '}', '(', ')']) →
      Flag ("R\"".toList ++ name ++ ['"'])

/-- A name that is looked up, a numeral, or one quoted literal. -/
inductive Value : List Char → Prop
  | slot {type index : Char} : type ∈ ['I', 'F', 'C', 'S', 'B'] → index ∈ ['1', '2', '3', '4', '5'] →
      Value [type, index]
  | sensor {c : Char} : c ∈ ['T', 'A', 'V'] → Value [c, 'R']
  | number {t : List Char} : Unsigned t → Value t
  | negative {t : List Char} : Unsigned t → Value ('-' :: t)
  | quoted {quote : Char} {t : List Char} : quote ∈ ['"', '\''] → Quoted.Closes quote t → Value (quote :: t)

/-- Digits after an optional minus, and the number of 32 bits that they stand for. -/
inductive Integer : List Char → Int → Prop
  | positive {ds : List Char} : ds ≠ [] → (∀ c ∈ ds, isDigit c = true) → ofDigits ds < 2 ^ 31 →
      Integer ds (ofDigits ds)
  | negative {ds : List Char} : ds ≠ [] → (∀ c ∈ ds, isDigit c = true) → ofDigits ds ≤ 2 ^ 31 →
      Integer ('-' :: ds) (-(ofDigits ds))

inductive Condition : List Char → Prop
  | mk {op : String} {l r : List Char} : op ∈ ["=", "!=", ">", ">=", "<", "<="] → Value l → Value r →
      Condition ('O' :: op.toList ++ ',' :: l ++ ',' :: r)

mutual

/-- A token that stands inside `k` bodies. -/
inductive Token : Nat → List Char → Prop
  | delay {k : Nat} {ds : List Char} : ds ≠ [] → (∀ c ∈ ds, isDigit c = true) → Token k ('D' :: ds)
  | leave {k : Nat} : Token k ['X']
  | command {k : Nat} {t : List Char} : t ≠ [] → (∀ c ∈ t, isCommandChar c = true) → Token k t
  | assign {k : Nat} {type index op : Char} {v : List Char} : type ∈ ['I', 'F', 'C', 'S', 'B'] →
      index ∈ ['1', '2', '3', '4', '5'] → op ∈ ['=', '+'] → Value v →
      Token k ("G(".toList ++ type :: ',' :: index :: ',' :: op :: ',' :: v ++ [')'])
  | branch {k : Nat} {c yes no : List Char} : Condition c → Body k yes → Body k no →
      Token k ("C(".toList ++ c ++ ')' :: yes ++ no)
  | repeatWhile {k : Nat} {c b : List Char} : Condition c → Body k b → Token k ("W(".toList ++ c ++ ')' :: b)
  | count {k : Nat} {i j s b : List Char} {start stop step : Int} : Integer i start → Integer j stop →
      Integer s step → step ≠ 0 → Body k b → Token k ("F(".toList ++ i ++ '-' :: j ++ ',' :: s ++ ')' :: b)
  | select {k : Nat} {v d : List Char} {cases : List (List Char × List Char)} : Value v →
      (∀ case ∈ cases, Value case.1) → (∀ case ∈ cases, Body k case.2) → Body k d →
      Token k ("K(".toList ++ v ++ ", ".toList ++
        cases.flatMap (fun case => '(' :: case.1 ++ ')' :: case.2 ++ [' ']) ++ "(D)".toList ++ d ++ [')'])

/-- A body that is opened inside `k` others. -/
inductive Body : Nat → List Char → Prop
  | empty {k : Nat} : k < 64 → Body k "\x7b\x7d".toList
  | tokens {k : Nat} {ts : List (List Char)} : k < 64 → ts ≠ [] → (∀ t ∈ ts, Token (k + 1) t) →
      Body k ("\x7b|".toList ++ join ts ++ "|\x7d".toList)

end

/-- A whole script. The mark of the loop section is also a command, so a text may be one in several ways. -/
inductive Sentence : List Char → Prop
  | mk {flags setup loop : List (List Char)} : (∀ t ∈ flags, Flag t) → (∀ t ∈ setup, Token 0 t) →
      (∀ t ∈ loop, Token 0 t) →
      Sentence ("|I|".toList ++ join flags ++ "|S|".toList ++ join setup ++ "|L|".toList ++ join loop ++ ['|'])

theorem flag_iff {t : List Char} : Flag t ↔ ∃ flag : InitFlag, flag.Valid ∧ flag.chars = t := by
  constructor
  · intro isFlag
    cases isFlag with
    | letter member =>
      simp only [List.mem_cons, List.not_mem_nil, or_false] at member
      rcases member with rfl | rfl | rfl | rfl | rfl | rfl
      · exact ⟨.eyes, trivial, rfl⟩
      · exact ⟨.buzzer, trivial, rfl⟩
      · exact ⟨.motors, trivial, rfl⟩
      · exact ⟨.touch, trivial, rfl⟩
      · exact ⟨.audio, trivial, rfl⟩
      · exact ⟨.light, trivial, rfl⟩
    | @pairing name nonempty short allowed =>
      refine ⟨.pairing (String.ofList name), ?_, ?_⟩
      · rw [InitFlag.Valid, String.toList_ofList]
        refine ⟨nonempty, short, List.all_eq_true.mpr fun c member => ?_⟩
        simpa [InitFlag.isPairingChar] using allowed c member
      · simp only [InitFlag.chars, String.toList_ofList]
  · rintro ⟨flag, valid, rfl⟩
    cases flag with
    | pairing name =>
      refine .pairing valid.1 valid.2.1 fun c member => ?_
      simpa [InitFlag.isPairingChar] using List.all_eq_true.mp valid.2.2 c member
    | _ => exact .letter (by simp)

theorem flags_iff {ts : List (List Char)} :
    (∀ t ∈ ts, Flag t) ↔
      ∃ flags : List InitFlag, (∀ flag ∈ flags, flag.Valid) ∧ flags.map InitFlag.chars = ts := by
  constructor
  · intro areFlags
    induction ts with
    | nil => exact ⟨[], by simp, rfl⟩
    | cons t ts ih =>
      obtain ⟨isFlag, others⟩ := List.forall_mem_cons.mp areFlags
      obtain ⟨flag, valid, rfl⟩ := flag_iff.mp isFlag
      obtain ⟨flags, allValid, rfl⟩ := ih others
      exact ⟨flag :: flags, List.forall_mem_cons.mpr ⟨valid, allValid⟩, rfl⟩
  · rintro ⟨flags, valid, rfl⟩ t member
    obtain ⟨flag, isMember, rfl⟩ := List.mem_map.mp member
    exact flag_iff.mpr ⟨flag, valid flag isMember, rfl⟩

theorem slot_iff {type index : Char} :
    type ∈ ['I', 'F', 'C', 'S', 'B'] ∧ index ∈ ['1', '2', '3', '4', '5'] ↔
      ∃ slot : Slot, slot.type.code = type ∧ digits slot.index = [index] := by
  have types : ['I', 'F', 'C', 'S', 'B'] = SlotType.all.map SlotType.code := rfl
  have indices : ['1', '2', '3', '4', '5'] = [1, 2, 3, 4, 5].map Nat.digitChar := rfl
  rw [types, indices, List.mem_map, List.mem_map]
  constructor
  · rintro ⟨⟨letter, -, isLetter⟩, n, inRange, isDigit⟩
    simp only [List.mem_cons, List.not_mem_nil, or_false] at inRange
    have bounds : 1 ≤ n ∧ n ≤ maxSlot := by
      unfold maxSlot
      omega
    refine ⟨⟨letter, n, bounds.1, bounds.2⟩, isLetter, ?_⟩
    have small : n < 10 := by omega
    rw [← isDigit]
    exact Nat.toDigits_of_lt_base small
  · rintro ⟨⟨letter, n, lower, upper⟩, isLetter, single⟩
    have upper : n ≤ 5 := upper
    have small : n < 10 := by omega
    refine ⟨⟨letter, by cases letter <;> simp [SlotType.all], isLetter⟩, n, ?_, ?_⟩
    · simp only [List.mem_cons, List.not_mem_nil, or_false]
      omega
    · rw [digits, Nat.toDigits_of_lt_base small] at single
      exact (List.cons.inj single).1

theorem value_iff {t : List Char} : Value t ↔ ∃ v, SpellsValue t v := by
  constructor
  · intro isValue
    refine exists_spellsValue ?_
    cases isValue with
    | slot isType isIndex =>
      obtain ⟨slot, rfl, single⟩ := slot_iff.mp ⟨isType, isIndex⟩
      rw [← single]
      exact .symbol (.slot slot)
    | sensor member =>
      simp only [List.mem_cons, List.not_mem_nil, or_false] at member
      rcases member with rfl | rfl | rfl
      · exact .symbol (.sensor .touch)
      · exact .symbol (.sensor .audio)
      · exact .symbol (.sensor .light)
    | number unsigned => exact .number (isNumeric_iff.mpr ⟨_, unsigned, .inl rfl⟩)
    | negative unsigned => exact .number (isNumeric_iff.mpr ⟨_, unsigned, .inr rfl⟩)
    | quoted isQuote closes =>
      exact .quoted (Quoted.isWhole_iff.mpr ⟨_, _, by simpa [Quoted.isQuote] using isQuote, closes, rfl⟩)
  · rintro ⟨v, spelled⟩
    cases spelled with
    | symbol name =>
      cases name with
      | slot place =>
        obtain ⟨c, single, -, -⟩ := place.digits_index
        obtain ⟨isType, isIndex⟩ := slot_iff.mpr ⟨place, rfl, single⟩
        rw [Symbol.chars, Slot.chars, single]
        exact .slot isType isIndex
      | sensor source =>
        cases source with
        | touch => exact .sensor (c := 'T') (by simp)
        | audio => exact .sensor (c := 'A') (by simp)
        | light => exact .sensor (c := 'V') (by simp)
    | number numeric =>
      obtain ⟨u, unsigned, rfl | rfl⟩ := isNumeric_iff.mp numeric
      · exact .number unsigned
      · exact .negative unsigned
    | quoted whole =>
      obtain ⟨quote, inner, isQuote, closes, rfl⟩ := Quoted.isWhole_iff.mp whole
      exact .quoted (by simpa [Quoted.isQuote] using isQuote) closes

theorem integer_iff {t : List Char} {n : Int} : Integer t n ↔ ∃ m : Int32, SpellsInt t m ∧ m.toInt = n := by
  constructor
  · intro isInteger
    -- Within the bounds, the number of 32 bits is the one that is read.
    have ofRead {t : List Char} {n : Int} (lower : -2 ^ 31 ≤ n) (upper : n < 2 ^ 31) (read : readInt? t = some n) :
        readInt32? t = some (Int32.ofInt n) ∧ (Int32.ofInt n).toInt = n := by
      have value := Int32.toInt_ofInt_of_le lower upper
      exact ⟨readInt32?_eq_some_iff.mpr (by rw [value, read]), value⟩
    cases isInteger with
    | positive nonempty digit small =>
      obtain ⟨read, value⟩ := ofRead (by omega) (by omega) (readInt?_of_isDigit nonempty digit).1
      exact ⟨_, ⟨⟨_, digit, .inl rfl⟩, read⟩, value⟩
    | negative nonempty digit small =>
      obtain ⟨read, value⟩ := ofRead (by omega) (by omega) (readInt?_of_isDigit nonempty digit).2
      exact ⟨_, ⟨⟨_, digit, .inr rfl⟩, read⟩, value⟩
  · rintro ⟨m, ⟨⟨ds, digit, same⟩, value⟩, rfl⟩
    have read := readInt32?_eq_some_iff.mp value
    have lower : -2 ^ 31 ≤ m.toInt := m.minValue_le_toInt
    have upper : m.toInt < 2 ^ 31 := m.toInt_lt
    have nonempty : ds ≠ [] := by
      rintro rfl
      rcases same with rfl | rfl <;> cases read
    obtain ⟨positive, negative⟩ := readInt?_of_isDigit nonempty digit
    rcases same with rfl | rfl
    · rw [positive, Option.some_inj] at read
      rw [← read]
      exact .positive nonempty digit (by omega)
    · rw [negative, Option.some_inj] at read
      rw [← read]
      exact .negative nonempty digit (by omega)

theorem condition_iff {t : List Char} : Condition t ↔ ∃ c, SpellsCondition t c := by
  have ops : ["=", "!=", ">", ">=", "<", "<="] = Comparison.all.map Comparison.wire := rfl
  constructor
  · rintro ⟨isOp, left, right⟩
    rw [ops] at isOp
    obtain ⟨op, -, rfl⟩ := List.mem_map.mp isOp
    obtain ⟨l, left⟩ := value_iff.mp left
    obtain ⟨r, right⟩ := value_iff.mp right
    exact ⟨_, .mk op left right⟩
  · rintro ⟨c, ⟨op, left, right⟩⟩
    refine .mk ?_ (value_iff.mpr ⟨_, left⟩) (value_iff.mpr ⟨_, right⟩)
    rw [ops]
    exact List.mem_map_of_mem (by cases op <;> simp [Comparison.all])

theorem exists_forall₂_iff {α β : Type} {R : α → β → Prop} {xs : List α} :
    (∃ ys, List.Forall₂ R xs ys) ↔ ∀ x ∈ xs, ∃ y, R x y := by
  induction xs with
  | nil => simp
  | cons x xs ih =>
    rw [List.forall_mem_cons, ← ih]
    simp only [List.forall₂_cons_left_iff]
    constructor
    · rintro ⟨_, y, ys, first, others, rfl⟩
      exact ⟨⟨y, first⟩, ys, others⟩
    · rintro ⟨⟨y, first⟩, ys, others⟩
      exact ⟨y :: ys, y, ys, first, others, rfl⟩

theorem body_iff {k : Nat} {spells : List Char → Node → Prop}
    (tokens : ∀ t, Token (k + 1) t ↔ ∃ node, spells t node) (room : k < 64) {b : List Char} :
    Body k b ↔ ∃ nodes, SpellsBody spells b nodes := by
  constructor
  · intro isBody
    cases isBody with
    | empty _ => exact ⟨[], SpellsBody.mk .nil⟩
    | @tokens _ ts _ nonempty all =>
      obtain ⟨nodes, spelled⟩ := exists_forall₂_iff.mpr fun t member => (tokens t).mp (all t member)
      have shape : body ts = "\x7b|".toList ++ join ts ++ "|\x7d".toList := if_neg (by simpa using nonempty)
      rw [← shape]
      exact ⟨nodes, .mk spelled⟩
  · rintro ⟨nodes, @⟨ts, _, spelled⟩⟩
    have all : ∀ t ∈ ts, Token (k + 1) t := fun t member =>
      (tokens t).mpr (exists_forall₂_iff.mp ⟨nodes, spelled⟩ t member)
    unfold body
    split
    · exact .empty room
    · rename_i nonempty
      exact .tokens room (by simpa using nonempty) all

-- One layer of nesting: the bodies are a parameter, so that the induction on the depth is made once.
section Layer

variable {k : Nat} {spellsBody : List Char → List Node → Prop}

theorem cases_iff (bodies : ∀ b, Body k b ↔ ∃ nodes, spellsBody b nodes) {t : List Char} :
    (∃ cases, SpellsCases spellsBody t cases) ↔ ∃ parts : List (List Char × List Char),
      (∀ part ∈ parts, Value part.1 ∧ Body k part.2) ∧
        t = parts.flatMap fun part => '(' :: part.1 ++ ')' :: part.2 ++ [' '] := by
  constructor
  · rintro ⟨cases, spelled⟩
    induction spelled with
    | nil => exact ⟨[], by simp, rfl⟩
    | @cons v b t value nodes cases atValue atBody _ ih =>
      obtain ⟨parts, all, rfl⟩ := ih
      have first : Value v ∧ Body k b := ⟨value_iff.mpr ⟨_, atValue⟩, (bodies b).mpr ⟨_, atBody⟩⟩
      exact ⟨(v, b) :: parts, List.forall_mem_cons.mpr ⟨first, all⟩, by simp⟩
  · rintro ⟨parts, all, rfl⟩
    induction parts with
    | nil => exact ⟨[], .nil⟩
    | cons part parts ih =>
      obtain ⟨⟨isValue, isBody⟩, others⟩ := List.forall_mem_cons.mp all
      obtain ⟨value, atValue⟩ := value_iff.mp isValue
      obtain ⟨nodes, atBody⟩ := (bodies _).mp isBody
      obtain ⟨cases, spelled⟩ := ih others
      refine ⟨(value, nodes) :: cases, ?_⟩
      simpa using SpellsCases.cons atValue atBody spelled

theorem Token.of_spellsAssign {t : List Char} {node : Node} (spelled : SpellsAssign t node) : Token k t := by
  cases spelled with
  | mk target op atValue =>
    obtain ⟨c, single, -, -⟩ := target.digits_index
    obtain ⟨isType, isIndex⟩ := slot_iff.mpr ⟨target, rfl, single⟩
    have isValue := value_iff.mpr ⟨_, atValue⟩
    have token {c : Char} (isOp : c ∈ ['=', '+']) := Token.assign (k := k) isType isIndex isOp isValue
    rw [single]
    cases op with
    | set => exact token (c := '=') (by simp)
    | add => exact token (c := '+') (by simp)

theorem exists_spellsAssign {type index op : Char} {v : List Char} (isType : type ∈ ['I', 'F', 'C', 'S', 'B'])
    (isIndex : index ∈ ['1', '2', '3', '4', '5']) (isOp : op ∈ ['=', '+']) (isValue : Value v) :
    ∃ node, SpellsAssign ("G(".toList ++ type :: ',' :: index :: ',' :: op :: ',' :: v ++ [')']) node := by
  obtain ⟨target, rfl, single⟩ := slot_iff.mp ⟨isType, isIndex⟩
  obtain ⟨value, atValue⟩ := value_iff.mp isValue
  have spelled (assignOp : AssignOp) := SpellsAssign.mk target assignOp atValue
  rw [single] at spelled
  simp only [List.mem_cons, List.not_mem_nil, or_false] at isOp
  rcases isOp with rfl | rfl
  · exact ⟨_, spelled .set⟩
  · exact ⟨_, spelled .add⟩

theorem Token.exists_spellsNode (bodies : ∀ b, Body k b ↔ ∃ nodes, spellsBody b nodes) {t : List Char}
    (token : Token k t) : ∃ node, SpellsNode spellsBody t node := by
  cases token with
  -- A delay and the end of a loop are words, as far as their characters go.
  | delay _ digit =>
    refine ⟨_, .word (by simp) (List.forall_mem_cons.mpr ⟨rfl, fun c member => ?_⟩)⟩
    simp [isCommandChar, digit c member]
  | leave => exact ⟨_, .word (by simp) (List.forall_mem_singleton.mpr rfl)⟩
  | command nonempty inWord => exact ⟨_, .word nonempty inWord⟩
  | assign isType isIndex isOp isValue =>
    obtain ⟨node, spelled⟩ := exists_spellsAssign isType isIndex isOp isValue
    exact ⟨node, .assign spelled⟩
  | branch isCondition isYes isNo =>
    obtain ⟨c, atCondition⟩ := condition_iff.mp isCondition
    obtain ⟨yes, atYes⟩ := (bodies _).mp isYes
    obtain ⟨no, atNo⟩ := (bodies _).mp isNo
    exact ⟨_, .branch atCondition atYes atNo⟩
  | repeatWhile isCondition isBody =>
    obtain ⟨c, atCondition⟩ := condition_iff.mp isCondition
    obtain ⟨nodes, atBody⟩ := (bodies _).mp isBody
    exact ⟨_, .repeatWhile atCondition atBody⟩
  | count isStart isStop isStep nonzero isBody =>
    obtain ⟨start, atStart, -⟩ := integer_iff.mp isStart
    obtain ⟨stop, atStop, -⟩ := integer_iff.mp isStop
    obtain ⟨step, atStep, rfl⟩ := integer_iff.mp isStep
    obtain ⟨nodes, atBody⟩ := (bodies _).mp isBody
    refine ⟨_, .count atStart atStop atStep ?_ atBody⟩
    rintro rfl
    exact nonzero rfl
  | @select _ v d parts isValue values isBodies isDefault =>
    obtain ⟨value, atValue⟩ := value_iff.mp isValue
    obtain ⟨cases, atCases⟩ := (cases_iff bodies).mpr
      ⟨parts, fun part member => ⟨values part member, isBodies part member⟩, rfl⟩
    obtain ⟨nodes, atDefault⟩ := (bodies _).mp isDefault
    exact ⟨_, .select atValue atCases atDefault⟩

theorem Token.of_spellsNode (bodies : ∀ b, Body k b ↔ ∃ nodes, spellsBody b nodes) {t : List Char} {node : Node}
    (spelled : SpellsNode spellsBody t node) : Token k t := by
  cases spelled with
  | word nonempty inWord => exact .command nonempty inWord
  | assign spelled => exact .of_spellsAssign spelled
  | branch atCondition atYes atNo =>
    exact .branch (condition_iff.mpr ⟨_, atCondition⟩) ((bodies _).mpr ⟨_, atYes⟩) ((bodies _).mpr ⟨_, atNo⟩)
  | repeatWhile atCondition atBody =>
    exact .repeatWhile (condition_iff.mpr ⟨_, atCondition⟩) ((bodies _).mpr ⟨_, atBody⟩)
  | count atStart atStop atStep nonzero atBody =>
    refine .count (integer_iff.mpr ⟨_, atStart, rfl⟩) (integer_iff.mpr ⟨_, atStop, rfl⟩)
      (integer_iff.mpr ⟨_, atStep, rfl⟩) ?_ ((bodies _).mpr ⟨_, atBody⟩)
    exact fun zero => nonzero (Int32.toInt_inj.mp zero)
  | select atValue atCases atDefault =>
    obtain ⟨parts, all, rfl⟩ := (cases_iff bodies).mp ⟨_, atCases⟩
    exact .select (value_iff.mpr ⟨_, atValue⟩) (fun part member => (all part member).1)
      (fun part member => (all part member).2) ((bodies _).mpr ⟨_, atDefault⟩)

theorem token_iff_spellsNode (bodies : ∀ b, Body k b ↔ ∃ nodes, spellsBody b nodes) {t : List Char} :
    Token k t ↔ ∃ node, SpellsNode spellsBody t node :=
  ⟨Token.exists_spellsNode bodies, fun ⟨_, spelled⟩ => .of_spellsNode bodies spelled⟩

end Layer

/-- A body that is opened inside `k` others has room for bodies `64 - k` deep, itself among them. -/
theorem body_iff_spellsIn {k depth : Nat} (room : k + depth = maxDepth) (b : List Char) :
    Body k b ↔ ∃ nodes, SpellsIn depth b nodes := by
  induction depth generalizing k b with
  | zero =>
    have full : ¬ k < 64 := Nat.not_lt.mpr (Nat.le_of_eq room.symm)
    constructor
    · intro isBody
      cases isBody <;> contradiction
    · rintro ⟨_, ⟨⟩⟩
  | succ depth ih =>
    have deeper : k + 1 + depth = maxDepth := by omega
    refine body_iff (fun t => ?_) (show k < maxDepth by omega)
    rw [spells_eq]
    exact token_iff_spellsNode (ih deeper)

theorem token_iff {t : List Char} : Token 0 t ↔ ∃ node, Spells maxDepth t node := by
  rw [spells_eq]
  exact token_iff_spellsNode (body_iff_spellsIn (Nat.zero_add _))

theorem sentence_iff {s : List Char} : Sentence s ↔ ∃ p, SpellsProgram s p := by
  constructor
  · rintro @⟨flags, setup, loop, areFlags, areSetup, areLoop⟩
    obtain ⟨flags, valid, rfl⟩ := flags_iff.mp areFlags
    obtain ⟨setup, spelled⟩ := exists_forall₂_iff.mpr fun t member => token_iff.mp (areSetup t member)
    obtain ⟨loop, spelledLoop⟩ := exists_forall₂_iff.mpr fun t member => token_iff.mp (areLoop t member)
    simp only [List.append_assoc]
    exact ⟨_, .mk valid spelled spelledLoop⟩
  · rintro ⟨_, ⟨valid, spelled, spelledLoop⟩⟩
    simp only [← List.append_assoc]
    exact .mk (flags_iff.mpr ⟨_, valid, rfl⟩)
      (fun t member => token_iff.mpr (exists_forall₂_iff.mp ⟨_, spelled⟩ t member))
      (fun t member => token_iff.mpr (exists_forall₂_iff.mp ⟨_, spelledLoop⟩ t member))

end Grammar

/-- The scripts that can be read are the sentences of the grammar, wherever a sentence has its boundary. -/
theorem exists_parse_iff_sentence (script : String) :
    (∃ p, parse script = .ok p) ↔ Grammar.Sentence script.toList := by
  simp only [parse_eq_ok_iff, Grammar.sentence_iff]
  constructor
  · rintro ⟨p, run⟩
    exact ⟨p, readProgram_sound run⟩
  · rintro ⟨p, spelled⟩
    exact ⟨p.resplit, readProgram_complete spelled⟩

end RobotScript.Script
