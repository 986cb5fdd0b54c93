import Mathlib.Data.List.Forall2
import RobotScript.Description.Basic
import RobotScript.Proofs.Description.Invariant
import RobotScript.Proofs.Json.Numerals
import RobotScript.Proofs.Number.Integers
import RobotScript.Proofs.Script.Literal

namespace RobotScript

@[simp] theorem Json.isNull_string (s : String) : (Json.string s).isNull = false := rfl

@[simp] theorem Json.isNull_array (items : List Json) : (Json.array items).isNull = false := rfl

@[simp] theorem Json.isNull_object (fields : List (String × Json)) : (Json.object fields).isNull = false := rfl

@[simp] theorem JsonFields.field?_cons (key other : String) (value : Json) (fields : JsonFields) :
    JsonFields.field? ((other, value) :: fields) key =
      if key = other then (if value.isNull then none else some value) else fields.field? key := by
  simp only [field?, get?, List.lookup_cons]
  by_cases same : key = other
  · cases absent : value.isNull <;> simp [same, absent]
  · have differs : (key == other) = false := by simpa using same
    simp [same, differs]

@[simp] theorem Slot.inWord_index (slot : Slot) : InWord slot.index := by
  have upper : slot.index ≤ 5 := slot.le_max
  exact ⟨by omega, by omega⟩

namespace Node

theorem toJsonAll_eq_map (nodes : List Node) : toJsonAll nodes = nodes.map toJson := by
  induction nodes with
  | nil => rfl
  | cons node nodes ih => rw [toJsonAll, ih, List.map_cons]

/-- A case as a description writes it. -/
def caseToJson (case : Value × List Node) : Json :=
  .object [("match", case.1.toJson), ("body", .array (toJsonAll case.2))]

theorem toJsonCases_eq_map (cases : List (Value × List Node)) : toJsonCases cases = cases.map caseToJson := by
  induction cases with
  | nil => rfl
  | cons case cases ih => rw [toJsonCases, ih, List.map_cons, caseToJson]

end Node

namespace Description

instance : LawfulMonad Cleaned :=
  LawfulMonad.mk' Cleaned (fun x => by simp [Functor.map]) (fun _ _ => rfl) (fun x f g => by simp [bind])

section

variable {key : String} {fields : JsonFields}

theorem trimmedField_of_field {s : String} (found : fields.field? key = some (.string s))
    (trimmed : Text.trim s.toList = s.toList) : trimmedField fields key = s.toList := by
  simp only [trimmedField, JsonFields.text?, found, Option.bind_some, Json.text?, Option.getD_some, trimmed]

/-- A number of a description that is an integer of few bits is rounded to itself. -/
theorem round_of_field {n : Int} (found : fields.field? key = some (.ofInt n)) (word : InWord n)
    (small : n.natAbs < 2 ^ 53) :
    (fields.number? key).map FiniteFloat.round = some n := by
  obtain ⟨x, converted, whole⟩ := Floating.round_ofInt (F := .binary64) (by decide) (by decide) small
  simp only [JsonFields.number?, found, Option.bind_some, Json.number?_ofInt word, converted, Floating.finite?,
    Option.map_some, whole]

end

section Values

/-- Cleaning finds nothing to do in a text that is clean already. -/
theorem cleanText_eq {s : List Char} (trimmed : Text.trim s = s) (short : s.length ≤ maxTextLength)
    (unreserved : ∀ c ∈ s, isReserved c = false) (path : Path) :
    cleanText path s = pure ((Symbol.ofChars? s).elim (.text (String.ofList s)) .symbol) := by
  have all : (s.filter (!isReserved ·)).length = s.length :=
    List.length_filter_eq_length_iff.mpr fun c member => by simp [unreserved c member]
  have kept : removeReserved path s = pure s := by
    simp only [removeReserved, trimmed, all, if_true]
  have whole : truncate path s = pure s := if_pos short
  simp only [cleanText, kept, whole, pure_bind]
  cases Symbol.ofChars? s <;> rfl

theorem not_isReserved_of_isPlainChar {c : Char} (plain : isPlainChar c = true) : isReserved c = false := by
  have clear : c ∉ ['|', '{', '}', '(', ')', ','] := Text.not_mem_of_class plain (by decide)
  refine isReserved_eq_false_iff.mpr ⟨?_, clear⟩
  simp only [isPlainChar, Bool.or_eq_true, beq_iff_eq] at plain
  rcases plain with (inWord | rfl) | rfl
  · have bounds := isCommandChar_bounds inWord
    simp only [Text.isControl, Bool.or_eq_false_iff, Bool.and_eq_false_iff, decide_eq_false_iff_not]
    omega
  · decide
  · decide

theorem cleanValue_toJson {v : Value} (clean : v.Clean) (path : Path) : cleanValue path (some v.toJson) = pure v := by
  cases v with
  | integer n =>
    have lower := n.minValue_le_toInt
    have upper := n.toInt_le
    simp only [Value.toJson, Json.ofInt_eq (.int64 n), cleanValue, cleanInteger, lower, upper, and_self, if_true,
      Int64.ofInt_toInt]
  | float x =>
    cases x with
    | finite x => rfl
    | nan => cases clean
    | infinite negative => cases clean
  | bool b => rfl
  | text s =>
    obtain ⟨trimmed, short, unreserved, noSymbol⟩ := clean
    simp only [Value.toJson, cleanValue, cleanText_eq trimmed short unreserved, noSymbol, Option.elim_none,
      String.ofList_toList]
  | symbol name =>
    have plain : ∀ c ∈ name.chars, isPlainChar c = true := fun c => isPlainChar_of_mem_symbol
    have short : name.chars.length ≤ maxTextLength := by
      obtain ⟨letter, c, shape, -⟩ := name.chars_shape
      simp [shape, maxTextLength]
    have unreserved : ∀ c ∈ name.chars, isReserved c = false := fun c member =>
      not_isReserved_of_isPlainChar (plain c member)
    simp only [Value.toJson, cleanValue, String.toList_ofList, cleanText_eq (trim_of_plain plain) short unreserved,
      Symbol.ofChars?_chars, Option.elim_some]

theorem isNull_toJson {v : Value} (clean : v.Clean) : v.toJson.isNull = false := by
  cases v with
  | float x =>
    cases x with
    | finite x => rfl
    | nan => cases clean
    | infinite negative => cases clean
  | integer n => exact Json.isNull_ofInt (.int64 n)
  | _ => rfl

theorem cleanComparison_eq {path : Path} {fields : JsonFields} (op : Comparison)
    (found : fields.field? "op" = some (.string op.symbol)) : cleanComparison path fields = pure op := by
  have trimmed : Text.trim op.symbol.toList = op.symbol.toList := by cases op <;> decide
  have known : Comparison.ofSymbol? op.symbol = some op := by cases op <;> rfl
  simp only [cleanComparison, trimmedField_of_field found trimmed, String.ofList_toList, known]

theorem cleanCondition_toJson {c : Condition} (left : c.left.Clean) (right : c.right.Clean) (path : Path) :
    cleanCondition path (some c.toJson) = pure c := by
  have fields : c.toJson.fields? =
      some [("op", .string c.op.symbol), ("left", c.left.toJson), ("right", c.right.toJson)] := rfl
  simp only [cleanCondition, Option.bind_some, fields]
  rw [cleanComparison_eq c.op (by simp)]
  simp [isNull_toJson left, isNull_toJson right, cleanValue_toJson left, cleanValue_toJson right]

end Values

section Parts

variable {path : Path} {fields : JsonFields}

theorem toUpper_of_isCommandChar {c : Char} (inWord : isCommandChar c = true) : c.toUpper = c := by
  have bounds := isCommandChar_bounds inWord
  unfold Char.toUpper
  split
  · rename_i lower
    simp only [UInt32.le_iff_toNat_le] at lower
    have letter : 97 ≤ c.toNat := lower.1
    omega
  · rfl

theorem cleanCommand_eq {token : String} (found : fields.field? "cmd" = some (.string token))
    (legal : isCommandToken token.toList = true) : cleanCommand path fields = pure (some (.command token)) := by
  obtain ⟨nonempty, inWord⟩ := isCommandChar_of_isCommandToken legal
  have trimmed : Text.trim token.toList = token.toList :=
    trim_of_plain fun c member => by simp [isPlainChar, inWord c member]
  have upper : Text.upper token.toList = token.toList :=
    (List.map_congr_left fun c member => toUpper_of_isCommandChar (inWord c member)).trans (List.map_id _)
  simp only [cleanCommand, trimmedField_of_field found trimmed, upper, List.isEmpty_iff, nonempty, legal, if_false,
    if_true, String.ofList_toList]

theorem cleanDelay_eq {ms : UInt32} (found : fields.field? "ms" = some (.ofInt ms.toNat)) :
    cleanDelay path fields = pure ms := by
  have bound := ms.toNat_lt_size
  have number := round_of_field found (.uint32 ms) (by simp [UInt32.size] at bound; omega)
  have notNegative : ¬ (ms.toNat : Int) < 0 := by omega
  have notLong : ¬ ((UInt32.size : Int) ≤ ms.toNat) := by omega
  simp only [cleanDelay, number, notNegative, notLong, if_false, Int.toNat_natCast, UInt32.ofNat_toNat]

theorem cleanInt32_eq {key : String} {n : Int32} (found : fields.field? key = some (.ofInt n.toInt)) (default : Int) :
    cleanInt32 path fields key default = pure n := by
  have lower : ¬ n.toInt < Int32.minValue.toInt := not_lt.mpr n.minValue_le_toInt
  have upper : ¬ Int32.maxValue.toInt < n.toInt := not_lt.mpr n.toInt_le
  have small : n.toInt.natAbs < 2 ^ 53 := by
    have least := n.le_toInt
    have greatest := n.toInt_lt
    omega
  have number := round_of_field found (.int32 n) small
  simp only [cleanInt32, number, lower, upper, if_false, Int32.ofInt_toInt]

theorem cleanStep_eq {step : Int32} (found : fields.field? "step" = some (.ofInt step.toInt)) (nonzero : step ≠ 0) :
    cleanStep path fields = pure step := by
  simp only [cleanStep, cleanInt32_eq found, pure_bind, nonzero, if_false]

theorem cleanSlotType_eq (type : SlotType)
    (found : fields.field? "varType" = some (.string (String.singleton type.code))) :
    cleanSlotType path fields = pure type := by
  have text : fields.text? "varType" = some (String.singleton type.code) := by
    simp only [JsonFields.text?, found, Option.bind_some, Json.text?]
  have letter : Text.upper (Text.trim (String.singleton type.code).toList) = [type.code] := by
    cases type <;> decide
  simp only [cleanSlotType, text, letter, SlotType.ofCode?_code]

theorem cleanSlotIndex_eq (slot : Slot) (found : fields.field? "index" = some (.ofInt slot.index)) :
    cleanSlotIndex path fields = pure (slot.index : Int) := by
  have lower := slot.one_le
  have upper := slot.le_max
  have number := round_of_field found slot.inWord_index (by simp [maxSlot] at upper; omega)
  have inside : 1 ≤ (slot.index : Int) ∧ (slot.index : Int) ≤ maxSlot := by omega
  simp only [cleanSlotIndex, number, inside, and_self, if_true]

theorem clamped_index (slot : Slot) : Slot.clamped slot.type slot.index = slot := by
  obtain ⟨type, index, lower, upper⟩ := slot
  simp only [Slot.clamped, Int.toNat_natCast, Slot.mk.injEq, true_and]
  omega

theorem cleanAssignOp_eq (op : AssignOp) (found : fields.field? "op" = some (.string op.symbol)) :
    cleanAssignOp path fields = pure op := by
  have trimmed : Text.trim op.symbol.toList = op.symbol.toList := by cases op <;> decide
  simp only [cleanAssignOp, trimmedField_of_field found trimmed]
  cases op <;> rfl

end Parts

section Lists

variable {α β : Type}

theorem forall₂_located {encode : α → Json} {R : Path × Json → α → Prop} {items : List α}
    (each : ∀ item ∈ items, ∀ path, R (path, encode item) item) (path : Path) :
    List.Forall₂ R (located path (items.map encode)) items := by
  -- the places are arbitrary in the induction, since they shift with each item
  have placed (place : Nat → Path) :
      List.Forall₂ R ((items.map encode).mapIdx fun index item => (place index, item)) items := by
    induction items generalizing place with
    | nil => exact .nil
    | cons item items ih =>
      obtain ⟨first, others⟩ := List.forall_mem_cons.mp each
      rw [List.map_cons, List.mapIdx_cons]
      exact .cons (first _) (ih others fun index => place (index + 1))
  exact placed path.item

theorem mapM_eq_pure {f : α → Cleaned β} {items : List α} {results : List β}
    (each : List.Forall₂ (fun item result => f item = pure result) items results) :
    items.mapM f = pure results := by
  induction each with
  | nil => rfl
  | cons first _ ih => simp only [List.mapM_cons, first, ih, pure_bind]

theorem bind_of_eq_pure {x : Cleaned α} {a : α} (same : x = pure a) (f : α → Cleaned β) : (x >>= f) = f a := by
  rw [same, pure_bind]

theorem keepUpTo_eq_pure {clean : Path × Json → Cleaned (Option Node)} {items : List (Path × Json)}
    {nodes : List Node} (each : List.Forall₂ (fun item node => clean item = pure (some node)) items nodes) {room : Nat}
    (few : nodes.length ≤ room) : keepUpTo clean room items = pure nodes := by
  induction each generalizing room with
  | nil => cases room <;> rfl
  | cons first _ ih =>
    obtain ⟨room, rfl⟩ : ∃ k, room = k + 1 := Nat.exists_eq_succ_of_ne_zero (by simp at few; omega)
    have fewer := ih (Nat.le_of_succ_le_succ few)
    simp only [keepUpTo, first, fewer, pure_bind]

theorem cleanCaseList_map (encode : α → Json) {items : List α} (few : items.length ≤ maxCases) (path : Path) :
    cleanCaseList path (some (.array (items.map encode))) = pure (items.map encode) :=
  if_pos (by rwa [List.length_map])

/-- A field is cleaned as the value that stands in it. -/
theorem clean_field {clean : Path → Option Json → Cleaned α} {fields : JsonFields} {key : String} {raw : Json}
    {a : α} (found : fields.field? key = some raw) (same : ∀ path, clean path (some raw) = pure a) (path : Path) :
    clean path (fields.field? key) = pure a := by
  rw [found, same]

end Lists

theorem cleanCase_toJson {nodes : Path → Option Json → Cleaned (List Node)} {case : Value × List Node}
    (value : case.1.Clean) (body : ∀ path, nodes path (some (.array (Node.toJsonAll case.2))) = pure case.2)
    {fields : JsonFields} (found : (Node.caseToJson case).fields? = some fields) (path : Path) :
    cleanValue (path.field "match") (fields.field? "match") = pure case.1 ∧
      nodes (path.field "body") (fields.field? "body") = pure case.2 := by
  cases found
  exact ⟨clean_field (by simp [isNull_toJson value]) (cleanValue_toJson value) _, clean_field (by simp) body _⟩

/-- An instruction is cleaned from its own description, if its bodies are. -/
theorem cleanNodeWith_toJson {nodes : Path → Option Json → Cleaned (List Node)} {node : Node} (clean : node.Clean)
    (bodies : ∀ body ∈ node.bodies, ∀ path, nodes path (some (.array (Node.toJsonAll body))) = pure body)
    (path : Path) : cleanNodeWith nodes (path, node.toJson) = pure (some node) := by
  have kind (name : String) (trimmed : Text.trim name.toList = name.toList) {fields : JsonFields} :
      trimmedField (("type", .string name) :: fields) "type" = name.toList :=
    trimmedField_of_field (by simp) trimmed
  obtain ⟨legal, values, -⟩ := clean
  cases node with
  | command token =>
    simp only [Node.toJson, cleanNodeWith, Json.fields?, kind "cmd" (by decide), String.ofList_toList]
    exact cleanCommand_eq (by simp) legal
  | delay ms =>
    simp only [Node.toJson, cleanNodeWith, Json.fields?, kind "delay" (by decide), String.ofList_toList]
    exact bind_of_eq_pure (cleanDelay_eq (by simp)) _
  | assign target op value =>
    have clean := values value (by simp [Node.values])
    simp only [Node.toJson, cleanNodeWith, Json.fields?, kind "set_var" (by decide), String.ofList_toList,
      cleanAssign]
    rw [cleanSlotType_eq target.type (by simp), cleanSlotIndex_eq target (by simp),
      cleanAssignOp_eq op (by simp), clean_field (by simp [isNull_toJson clean]) (cleanValue_toJson clean)]
    simp only [pure_bind, clamped_index]
  | branch condition yes no =>
    obtain ⟨left, right⟩ : condition.left.Clean ∧ condition.right.Clean := by simpa [Node.values] using values
    simp only [Node.toJson, cleanNodeWith, Json.fields?, kind "if" (by decide), String.ofList_toList]
    refine (bind_of_eq_pure (clean_field (by simp [Condition.toJson]) (cleanCondition_toJson left right) _) _).trans ?_
    refine (bind_of_eq_pure (clean_field (by simp) (bodies yes (by simp [Node.bodies])) _) _).trans ?_
    exact bind_of_eq_pure (clean_field (by simp) (bodies no (by simp [Node.bodies])) _) _
  | repeatWhile condition body =>
    obtain ⟨left, right⟩ : condition.left.Clean ∧ condition.right.Clean := by simpa [Node.values] using values
    simp only [Node.toJson, cleanNodeWith, Json.fields?, kind "while" (by decide), String.ofList_toList]
    refine (bind_of_eq_pure (clean_field (by simp [Condition.toJson]) (cleanCondition_toJson left right) _) _).trans ?_
    exact bind_of_eq_pure (clean_field (by simp) (bodies body (by simp [Node.bodies])) _) _
  | count start stop step body =>
    simp only [Node.toJson, cleanNodeWith, Json.fields?, kind "for" (by decide), String.ofList_toList]
    refine (bind_of_eq_pure (cleanInt32_eq (n := start) (by simp) _) _).trans ?_
    refine (bind_of_eq_pure (cleanInt32_eq (n := stop) (by simp) _) _).trans ?_
    refine (bind_of_eq_pure (cleanStep_eq (by simp) legal) _).trans ?_
    exact bind_of_eq_pure (clean_field (by simp) (bodies body (by simp [Node.bodies])) _) _
  | select value cases default =>
    obtain ⟨clean, ofCases⟩ := List.forall_mem_cons.mp values
    obtain ⟨bodiesOfCases, ofDefault⟩ := List.forall_mem_append.mp bodies
    simp only [Node.toJson, cleanNodeWith, Json.fields?, kind "switch" (by decide), String.ofList_toList,
      Node.toJsonCases_eq_map]
    refine (bind_of_eq_pure (clean_field (by simp [isNull_toJson clean]) (cleanValue_toJson clean) _) _).trans ?_
    refine (bind_of_eq_pure (clean_field (by simp) (cleanCaseList_map Node.caseToJson legal) _) _).trans ?_
    -- The cases are cleaned one by one, each at its own place.
    refine (bind_of_eq_pure (mapM_eq_pure (forall₂_located (fun case member place => ?_) _)) _).trans ?_
    · have parts := cleanCase_toJson (ofCases _ (List.mem_map_of_mem member))
        (bodiesOfCases _ (List.mem_map_of_mem member)) rfl place
      exact (bind_of_eq_pure parts.1 _).trans (bind_of_eq_pure parts.2 _)
    · exact bind_of_eq_pure (clean_field (by simp) (ofDefault default (by simp)) _) _
  | leave =>
    simp only [Node.toJson, cleanNodeWith, Json.fields?, kind "break" (by decide), String.ofList_toList]

/-- A list of clean instructions is cleaned from its own description, if there is room for its nesting. -/
theorem cleanNodes_toJson {levels : Nat} {nodes : List Node}
    (clean : ∀ k node, Within nodes k node → node.Clean ∧ k < levels) (few : nodes.length ≤ maxNodes) (path : Path) :
    cleanNodes levels path (some (.array (Node.toJsonAll nodes))) = pure nodes := by
  induction levels generalizing nodes path with
  | zero =>
    obtain rfl : nodes = [] := List.eq_nil_iff_forall_not_mem.mpr fun node member =>
      absurd (clean 0 node (.here member)).2 (Nat.not_lt_zero 0)
    rfl
  | succ levels ih =>
    -- What stands in a body of a node stands one body deeper in the list, and has one level less of room.
    have kept : keepUpTo (cleanNodeWith (cleanNodes levels)) maxNodes (located path (nodes.map Node.toJson)) =
        pure nodes := by
      refine keepUpTo_eq_pure (forall₂_located (fun node member place => ?_) path) few
      have here := (clean 0 node (.here member)).1
      refine cleanNodeWith_toJson here (fun body isBody path => ih (fun k inner within => ?_) ?_ path) place
      · obtain ⟨inside, deep⟩ := clean (k + 1) inner (.inside member isBody within)
        exact ⟨inside, by omega⟩
      · exact here.bodies body isBody
    have notTrimmed : ¬ maxNodes < (nodes.map Node.toJson).length := by
      rw [List.length_map]
      omega
    rw [Node.toJsonAll_eq_map]
    simp only [cleanNodes, kept, pure_bind, notTrimmed, if_false]

section Flags

theorem trim_flag {flag : InitFlag} (valid : flag.Valid) : Text.trim flag.chars = flag.chars := by
  cases flag with
  | pairing name =>
    refine Text.trim_eq_self_iff.mpr ⟨fun c first => ?_, fun c last => ?_⟩
    · obtain rfl : 'R' = c := Option.some.inj first
      decide
    · rw [InitFlag.chars, List.getLast?_concat] at last
      obtain rfl : '"' = c := Option.some.inj last
      decide
  | _ => decide

/-- What cleaning keeps of a flag. -/
def pairing? : InitFlag → Option InitFlag
  | .pairing name => some (.pairing name)
  | _ => none

theorem cleanFlag_eq {flag : InitFlag} (valid : flag.Valid) (path : Path) :
    cleanFlag (path, Json.ofChars flag.chars) = pure (pairing? flag) := by
  have nonempty : flag.chars.isEmpty = false := by simpa using flag.chars_ne_nil
  simp only [cleanFlag, Json.ofChars, String.toList_ofList, trim_flag valid, nonempty, InitFlag.ofChars?_chars valid]
  cases flag <;> rfl

/-- Distinct flags are all kept. -/
theorem keepOnce_eq {flags done : List InitFlag} (distinct : (done ++ flags).Nodup) :
    flags.foldl (fun kept flag => if flag ∈ kept then kept else kept ++ [flag]) done = done ++ flags := by
  induction flags generalizing done with
  | nil => rw [List.foldl_nil, List.append_nil]
  | cons flag flags ih =>
    have unseen : flag ∉ done := fun member =>
      (List.nodup_cons.mp (List.nodup_middle.mp distinct)).1 (List.mem_append_left _ member)
    rw [List.append_cons] at distinct ⊢
    rw [List.foldl_cons, if_neg unseen, ih distinct]

theorem pairing?_of_mem_inferFlags {setup loop : List Node} {flag : InitFlag} (member : flag ∈ inferFlags setup loop) :
    pairing? flag = none := by
  have known := (List.mem_filter.mp member).1
  simp only [InitFlag.enumerated, List.mem_cons, List.not_mem_nil, or_false] at known
  rcases known with rfl | rfl | rfl | rfl | rfl | rfl <;> rfl

/-- Of the flags of a clean program the ones that follow from its instructions are passed over. -/
theorem cleanFlags_toJson {setup loop : List Node} {names : List String} (distinct : names.Nodup)
    (valid : ∀ name ∈ names, (InitFlag.pairing name).Valid) :
    cleanFlags (some (.array ((inferFlags setup loop ++ names.map InitFlag.pairing).map fun flag : InitFlag =>
      Json.ofChars flag.chars))) = pure (names.map InitFlag.pairing) := by
  have allValid : ∀ flag ∈ inferFlags setup loop ++ names.map InitFlag.pairing, flag.Valid :=
    List.forall_mem_append.mpr ⟨inferFlags_valid setup loop, List.forall_mem_map.mpr valid⟩
  have inferred : (inferFlags setup loop).filterMap pairing? = [] :=
    List.filterMap_eq_nil_iff.mpr fun flag member => pairing?_of_mem_inferFlags member
  have named : (names.map InitFlag.pairing).filterMap pairing? = names.map InitFlag.pairing := by
    rw [List.filterMap_map]
    exact congrFun List.filterMap_eq_map names
  have distinctFlags : ([] ++ names.map InitFlag.pairing).Nodup := distinct.map fun _ _ => InitFlag.pairing.inj
  refine (bind_of_eq_pure (mapM_eq_pure (List.forall₂_map_right_iff.mpr
    (forall₂_located (fun flag member path => cleanFlag_eq (allValid flag member) path) _))) _).trans ?_
  rw [List.filterMap_map, Function.id_comp, List.filterMap_append, inferred, named, List.nil_append]
  exact congrArg pure (keepOnce_eq distinctFlags)

end Flags

/-- A clean program is cleaned from its own description, and nothing is remarked on. -/
theorem clean_toJson {p : Program} (isClean : p.Clean) : clean p.toJson = ⟨p, []⟩ := by
  obtain ⟨within, setup, loop, names, flags, distinct, valid⟩ := isClean
  have room (k : Nat) (node : Node) (stands : Within p.nodes k node) : node.Clean ∧ k < maxDepth + 1 := by
    obtain ⟨inside, deep⟩ := within k node stands
    exact ⟨inside, by omega⟩
  have ofSetup := cleanNodes_toJson (fun k node stands => room k node (within_append.mpr (.inl stands))) setup
  have ofLoop := cleanNodes_toJson (fun k node stands => room k node (within_append.mpr (.inr stands))) loop
  have unwrapped : programOf p.toJson = p.toJson := by
    have noProgram : p.toJson.fields?.bind (·.get? "program") = none := by
      simp [Program.toJson, Json.fields?, JsonFields.get?, List.lookup_cons]
    simp only [programOf, noProgram]
  have fields : p.toJson.fields? = some [
      ("initFlags", .array (p.initFlags.map fun flag => Json.ofChars flag.chars)),
      ("setup", .array (Node.toJsonAll p.setup)), ("loop", .array (Node.toJsonAll p.loop))] := rfl
  have ofFlags : cleanFlags (some (.array (p.initFlags.map fun flag => Json.ofChars flag.chars))) =
      pure (names.map InitFlag.pairing) := by
    rw [flags]
    exact cleanFlags_toJson distinct valid
  simp only [clean, unwrapped, fields]
  refine (bind_of_eq_pure (by simpa using ofFlags) _).trans ?_
  refine (bind_of_eq_pure (clean_field (by simp) ofSetup _) _).trans ?_
  refine (bind_of_eq_pure (clean_field (by simp) ofLoop _) _).trans ?_
  rw [← flags]
  rfl

/-- Cleaning a description that comes from cleaning changes nothing and warns of nothing. -/
theorem clean_toJson_clean (raw : Json) : clean (clean raw).value.toJson = ⟨(clean raw).value, []⟩ :=
  clean_toJson (clean_program raw)

end Description

end RobotScript
