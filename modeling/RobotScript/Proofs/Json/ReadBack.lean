import RobotScript.Json.Printer
import RobotScript.Proofs.Json.Reading

namespace RobotScript

open Text

namespace JsonPiece

/-- What is read where a piece was written: a control character that has no short escape comes back as a code
unit. -/
def reread : JsonPiece → JsonPiece
  | .char c =>
    if c.toNat < 0x20 ∧ c ∉ ['\x08', '\x0c', '\n', '\r', '\t'] then .unit c.toNat else .char c
  | .unit n => .unit n

theorem hex4_of_control : ∀ n < 0x20, hex4 n = ['0', '0', (n / 16).digitChar, (n % 16).digitChar] ∧
    JsonText.hexDigit? (n / 16).digitChar = some (n / 16) ∧
    JsonText.hexDigit? (n % 16).digitChar = some (n % 16) := by
  decide

theorem readPieces_unit {n : Nat} (control : n < 0x20) (s : List Char) :
    JsonText.readPieces ('\\' :: 'u' :: hex4 n ++ s) =
      (JsonText.readPieces s).map fun read => (.unit n :: read.1, read.2) := by
  obtain ⟨written, high, low⟩ := hex4_of_control n control
  have zero : JsonText.hexDigit? '0' = some 0 := by decide
  have value : 0 * 4096 + 0 * 256 + n / 16 * 16 + n % 16 = n := by omega
  rw [written]
  simp only [List.cons_append, List.nil_append, JsonText.readPieces, zero, high, low, Option.bind_eq_bind,
    Option.bind_some, value]
  cases JsonText.readPieces s <;> rfl

theorem readPieces_char (c : Char) (s : List Char) :
    JsonText.readPieces ((JsonPiece.char c).chars ++ s) =
      (JsonText.readPieces s).map fun read => ((JsonPiece.char c).reread :: read.1, read.2) := by
  by_cases named : c ∈ ['"', '\\', '\x08', '\x0c', '\n', '\r', '\t']
  · simp only [List.mem_cons, List.not_mem_nil, or_false] at named
    rcases named with rfl | rfl | rfl | rfl | rfl | rfl | rfl <;> exact JsonText.readPieces_escape rfl s
  · simp only [List.mem_cons, List.not_mem_nil, or_false, not_or] at named
    obtain ⟨notQuote, notSlash, named⟩ := named
    by_cases control : c.toNat < 0x20
    · simp only [chars, reread, beq_iff_eq, Bool.or_eq_true, notQuote, notSlash, named, control, or_self, if_false,
        if_true, List.mem_cons, List.not_mem_nil, not_false_eq_true, and_self]
      exact readPieces_unit control s
    · simp only [chars, reread, beq_iff_eq, Bool.or_eq_true, notQuote, notSlash, named, control, or_self, if_false,
        false_and]
      exact JsonText.readPieces_plain notQuote notSlash control s

/-- A string reads back behind its opening quote. -/
theorem readPieces_pieces (s : String) (rest : List Char) :
    JsonText.readPieces ((JsonText.pieces s).flatMap chars ++ '"' :: rest) =
      some ((JsonText.pieces s).map reread, rest) := by
  unfold JsonText.pieces
  induction s.toList with
  | nil => rfl
  | cons c s ih =>
    rw [List.map_cons, List.flatMap_cons, List.append_assoc, readPieces_char, ih]
    rfl

theorem decode?_unit {n : Nat} (control : n < 0x20) (pieces : List JsonPiece) :
    decode? (.unit n :: pieces) = (decode? pieces).map (Char.ofNat n :: ·) := by
  have notHigh : isHigh n = false := by simp [isHigh]; omega
  have notLow : isLow n = false := by simp [isLow]; omega
  rcases pieces with - | ⟨c | m, pieces⟩ <;> simp [decode?, notHigh, notLow]

/-- The text survives, though some control characters are now code units. -/
theorem text?_reread (s : String) : text? ((JsonText.pieces s).map reread) = some s := by
  suffices decoded : decode? ((JsonText.pieces s).map reread) = some s.toList by
    rw [text?, decoded, Option.map_some, String.ofList_toList]
  unfold JsonText.pieces
  induction s.toList with
  | nil => rfl
  | cons c s ih =>
    rw [List.map_cons, List.map_cons, reread]
    split
    · rename_i escaped
      rw [decode?_unit escaped.1, ih, Char.ofNat_toNat]
      rfl
    · rw [decode?, ih]
      rfl

end JsonPiece

namespace JsonNumeral

/-- A numeral that can be written: the sign of an exponent is a sign, runs of digits are not empty, and only a
lone zero stands at the front. -/
structure Sound (n : JsonNumeral) : Prop where
  whole : n.whole ≠ []
  wholeDigits : ∀ c ∈ n.whole, isDigit c = true
  zero : n.whole.head? = some '0' → n.whole.length = 1
  fractionDigits : ∀ c ∈ n.fraction, isDigit c = true
  exponent : ∀ e ∈ n.exponent, e.1 ∈ [none, some '+', some '-'] ∧ e.2 ≠ [] ∧ ∀ c ∈ e.2, isDigit c = true

/-- No character that could go on with a numeral comes next. -/
def Ends : List Char → Prop := Stops fun c => isDigit c || c == '.' || c == 'e' || c == 'E'

/-- The part of a numeral behind its digits. -/
def exponentChars : Option (Option Char × List Char) → List Char
  | none => []
  | some (sign, run) => 'e' :: sign.toList ++ run

theorem Ends.stops {rest : List Char} (ends : Ends rest) : Stops isDigit rest :=
  Stops.mono ends (by simp +contextual)

theorem readExponent_append {n : JsonNumeral} (sound : n.Sound) {rest : List Char} (ends : Ends rest) :
    JsonText.readExponent (exponentChars n.exponent ++ rest) = some (n.exponent, rest) := by
  refine JsonText.readExponent_eq_some_iff.mpr ?_
  cases written : n.exponent with
  | none => exact .inl ⟨rfl, rfl, Stops.mono ends (by simp +contextual)⟩
  | some e =>
    obtain ⟨sign, run⟩ := e
    obtain ⟨isSign, nonempty, inside⟩ := sound.exponent _ written
    exact .inr ⟨'e', sign, run, run ++ rest, rfl, isSign, rfl, by simp [exponentChars],
      JsonText.readRun_eq_some_iff.mpr ⟨rfl, nonempty, inside, ends.stops⟩⟩

theorem stops_exponentChars {p : Char → Bool} (notE : p 'e' = false) (e : Option (Option Char × List Char))
    {rest : List Char} (stop : Stops p rest) : Stops p (exponentChars e ++ rest) := by
  cases e with
  | none => exact stop
  | some e => exact stops_cons _ notE

/-- The part of a numeral between its whole digits and its exponent. -/
def fractionChars (fraction : List Char) : List Char := if fraction.isEmpty then [] else '.' :: fraction

theorem chars_eq (n : JsonNumeral) :
    n.chars =
      (if n.negative then ['-'] else []) ++ n.whole ++ fractionChars n.fraction ++ exponentChars n.exponent := by
  unfold chars fractionChars exponentChars
  rcases n.exponent with - | ⟨sign, run⟩ <;> rfl

theorem readFraction_append {fraction rest : List Char} (inside : ∀ c ∈ fraction, isDigit c = true)
    (stop : Stops (fun c => isDigit c || c == '.') rest) :
    JsonText.readFraction (fractionChars fraction ++ rest) = some (fraction, rest) := by
  refine JsonText.readFraction_eq_some_iff.mpr ?_
  cases fraction with
  | nil => exact .inl ⟨rfl, rfl, Stops.mono stop (by simp +contextual)⟩
  | cons c fraction =>
    have run : Stops isDigit rest := Stops.mono stop (by simp +contextual)
    exact .inr ⟨_, rfl, JsonText.readRun_eq_some_iff.mpr ⟨rfl, by simp, inside, run⟩⟩

/-- A numeral reads back in front of anything that ends it. -/
theorem readNumeral_append {n : JsonNumeral} (sound : n.Sound) {rest : List Char} (ends : Ends rest) :
    JsonText.readNumeral (n.chars ++ rest) = some (n, rest) := by
  have notExponent : Stops (fun c => isDigit c || c == '.') (exponentChars n.exponent ++ rest) :=
    stops_exponentChars (by decide) n.exponent (Stops.mono ends (by simp +contextual))
  have notFraction : Stops isDigit (fractionChars n.fraction ++ (exponentChars n.exponent ++ rest)) := by
    unfold fractionChars
    split
    · exact stops_exponentChars (by decide) n.exponent ends.stops
    · exact stops_cons _ (by decide)
  refine JsonText.readNumeral_eq_some_iff.mpr
    ⟨n.whole ++ (fractionChars n.fraction ++ (exponentChars n.exponent ++ rest)), _, _, ?_, JsonText.readRun_eq_some_iff.mpr ⟨rfl, sound.whole, sound.wholeDigits, notFraction⟩, sound.zero,
    readFraction_append sound.fractionDigits notExponent, readExponent_append sound ends⟩
  rw [chars_eq]
  simp only [List.append_assoc]

/-- A numeral starts with a minus or a digit. -/
theorem Sound.chars_cons {n : JsonNumeral} (sound : n.Sound) :
    ∃ c s, n.chars = c :: s ∧ ∀ d, d ≠ '-' → isDigit d = false → c ≠ d := by
  have read := readNumeral_append sound (stops_nil _)
  rw [List.append_nil] at read
  exact JsonText.readNumeral_cons read

end JsonNumeral

namespace JsonText

/-- A text as the printers are given it: its numerals can be written, and its strings are not escaped yet. -/
inductive Sound : JsonText → Prop
  | null : Sound .null
  | bool (b : Bool) : Sound (.bool b)
  | number {n : JsonNumeral} : n.Sound → Sound (.number n)
  | string (s : String) : Sound (ofString s)
  | array {items : List JsonText} : (∀ item ∈ items, Sound item) → Sound (.array items)
  | object {fields : List (List JsonPiece × JsonText)} : (∀ field ∈ fields, ∃ key, field.1 = pieces key) →
      (∀ field ∈ fields, Sound field.2) → Sound (.object fields)

mutual

/-- The same text with each piece as it is read back. -/
def reread : JsonText → JsonText
  | .string pieces => .string (pieces.map JsonPiece.reread)
  | .array items => .array (rereadItems items)
  | .object fields => .object (rereadFields fields)
  | other => other

def rereadItems : List JsonText → List JsonText
  | [] => []
  | item :: items => reread item :: rereadItems items

def rereadFields : List (List JsonPiece × JsonText) → List (List JsonPiece × JsonText)
  | [] => []
  | (key, value) :: fields => (key.map JsonPiece.reread, reread value) :: rereadFields fields

end

/-- How a printer spaces a text: what stands before an item at a depth, and behind a colon. -/
structure Layout where
  gap : Nat → List Char
  space : List Char
  gap_blank : ∀ n, ∀ c ∈ gap n, isSpace c = true
  space_blank : ∀ c ∈ space, isSpace c = true

def Layout.compact : Layout := ⟨fun _ => [], [], by simp, by simp⟩

def Layout.pretty : Layout := ⟨newline, [' '], by simp [newline, isSpace], by simp [isSpace]⟩

mutual

/-- Both printers in one. -/
def written (layout : Layout) (depth : Nat) : JsonText → List Char
  | .array [] => "[]".toList
  | .array items => '[' :: writtenItems layout (depth + 1) items ++ layout.gap depth ++ [']']
  | .object [] => ['{', '}']
  | .object fields => '{' :: writtenFields layout (depth + 1) fields ++ layout.gap depth ++ ['}']
  | .null => "null".toList
  | .bool b => if b then "true".toList else "false".toList
  | .number n => n.chars
  | .string pieces => JsonPiece.quoted pieces

def writtenItems (layout : Layout) (depth : Nat) : List JsonText → List Char
  | [] => []
  | [item] => layout.gap depth ++ written layout depth item
  | item :: items => layout.gap depth ++ written layout depth item ++ ',' :: writtenItems layout depth items

def writtenFields (layout : Layout) (depth : Nat) : List (List JsonPiece × JsonText) → List Char
  | [] => []
  | [(key, value)] => layout.gap depth ++ JsonPiece.quoted key ++ ':' :: layout.space ++ written layout depth value
  | (key, value) :: fields =>
    layout.gap depth ++ JsonPiece.quoted key ++ ':' :: layout.space ++ written layout depth value ++
      ',' :: writtenFields layout depth fields

end

theorem ends_of_blank {blank : List Char} (inside : ∀ c ∈ blank, isSpace c = true) {rest : List Char}
    (ends : JsonNumeral.Ends rest) : JsonNumeral.Ends (blank ++ rest) := by
  cases blank with
  | nil => exact ends
  | cons c blank =>
    refine stops_cons _ ?_
    have space := inside c List.mem_cons_self
    simp only [isSpace, Bool.or_eq_true, beq_iff_eq] at space
    rcases space with ((rfl | rfl) | rfl) | rfl <;> rfl

/-- A value starts with a character that is no blank. -/
theorem Sound.written_cons {t : JsonText} (sound : t.Sound) (layout : Layout) (depth : Nat) :
    ∃ c s, written layout depth t = c :: s ∧ isSpace c = false := by
  cases sound with
  | null => exact ⟨_, _, rfl, by decide⟩
  | bool b => cases b <;> exact ⟨_, _, rfl, by decide⟩
  | number sound =>
    obtain ⟨c, s, split, other⟩ := sound.chars_cons
    refine ⟨c, s, split, ?_⟩
    simp [isSpace, other ' ' (by decide) (by decide), other '\t' (by decide) (by decide),
      other '\n' (by decide) (by decide), other '\r' (by decide) (by decide)]
  | string s => exact ⟨_, _, rfl, by decide⟩
  | @array items each => cases items <;> exact ⟨_, _, rfl, by decide⟩
  | @object fields each => cases fields <;> exact ⟨_, _, rfl, by decide⟩

/-- A text reads back from what a layout makes of it, whatever comes behind. Two steps for each character are
enough. -/
def ReadsBack (layout : Layout) (depth : Nat) (t : JsonText) : Prop :=
  ∀ steps rest, 2 * (written layout depth t).length ≤ steps → JsonNumeral.Ends rest →
    readValue steps (written layout depth t ++ rest) = some (t.reread, rest)

variable {layout : Layout} {depth : Nat}

/-- The items of an array up to its end, by induction on the items: the first is followed by a comma, or by the
blanks in front of the end. -/
theorem readItems_writtenItems {items : List JsonText} (nonempty : items ≠ []) (sound : ∀ item ∈ items, item.Sound)
    (each : ∀ item ∈ items, item.ReadsBack layout depth) {blank : List Char}
    (inside : ∀ c ∈ blank, isSpace c = true) (rest : List Char) {steps : Nat}
    (enough : 2 * (writtenItems layout depth items).length < steps) :
    readItems steps (skip (writtenItems layout depth items ++ (blank ++ ']' :: rest))) =
      some (rereadItems items, rest) := by
  induction items generalizing steps with
  | nil => exact absurd rfl nonempty
  | cons item items ih =>
    obtain ⟨c, s, opens, notSpace⟩ := (sound item List.mem_cons_self).written_cons layout depth
    obtain ⟨steps, rfl⟩ := Nat.exists_eq_succ_of_ne_zero (Nat.ne_zero_of_lt enough)
    have first (tail : List Char) :
        skip (layout.gap depth ++ (written layout depth item ++ tail)) = written layout depth item ++ tail := by
      rw [skip_append (layout.gap_blank depth), opens, List.cons_append, skip_cons notSpace]
    cases items with
    | nil =>
      simp only [writtenItems, List.append_assoc, List.length_append] at enough ⊢
      rw [first]
      have own := each item List.mem_cons_self steps (blank ++ ']' :: rest) (by omega)
        (ends_of_blank inside (stops_cons _ rfl))
      exact readItems_succ_eq_some_iff.mpr ⟨_, _, own, .inl ⟨by rw [skip_append inside, skip_cons rfl], rfl⟩⟩
    | cons next items =>
      simp only [writtenItems, List.append_assoc, List.length_append, List.length_cons, List.cons_append] at enough ⊢
      rw [first]
      have own := each item List.mem_cons_self steps
        (',' :: (writtenItems layout depth (next :: items) ++ (blank ++ ']' :: rest))) (by omega) (stops_cons _ rfl)
      have others := ih (by simp) (fun item member => sound item (List.mem_cons_of_mem _ member))
        (fun item member => each item (List.mem_cons_of_mem _ member)) (by omega : _ < steps)
      exact readItems_succ_eq_some_iff.mpr ⟨_, _, own, .inr ⟨_, _, skip_cons rfl _, others, rfl⟩⟩

theorem readFields_writtenFields {fields : List (List JsonPiece × JsonText)} (nonempty : fields ≠ [])
    (keys : ∀ field ∈ fields, ∃ key, field.1 = pieces key) (sound : ∀ field ∈ fields, field.2.Sound)
    (each : ∀ field ∈ fields, field.2.ReadsBack layout depth) {blank : List Char}
    (inside : ∀ c ∈ blank, isSpace c = true) (rest : List Char) {steps : Nat}
    (enough : 2 * (writtenFields layout depth fields).length < steps) :
    readFields steps (skip (writtenFields layout depth fields ++ (blank ++ '}' :: rest))) =
      some (rereadFields fields, rest) := by
  induction fields generalizing steps with
  | nil => exact absurd rfl nonempty
  | cons field fields ih =>
    obtain ⟨key, value⟩ := field
    obtain ⟨name, rfl⟩ := keys _ List.mem_cons_self
    obtain ⟨c, s, opens, notSpace⟩ := (sound _ List.mem_cons_self).written_cons layout depth
    obtain ⟨steps, rfl⟩ := Nat.exists_eq_succ_of_ne_zero (Nat.ne_zero_of_lt enough)
    have first (tail : List Char) : skip (layout.gap depth ++ (JsonPiece.quoted (pieces name) ++ tail)) =
        '"' :: ((pieces name).flatMap JsonPiece.chars ++ '"' :: tail) := by
      rw [skip_append (layout.gap_blank depth), JsonPiece.quoted]
      simp only [List.cons_append, List.append_assoc, List.nil_append]
      exact skip_cons rfl _
    have second (tail : List Char) :
        skip (layout.space ++ (written layout depth value ++ tail)) = written layout depth value ++ tail := by
      rw [skip_append layout.space_blank, opens, List.cons_append, skip_cons notSpace]
    cases fields with
    | nil =>
      simp only [writtenFields, List.append_assoc, List.length_append, List.length_cons, List.cons_append] at enough ⊢
      have own := each _ List.mem_cons_self steps _ (by dsimp only; omega)
        (ends_of_blank inside (stops_cons rest (c := '}') rfl))
      rw [first]
      exact readFields_succ_eq_some_iff.mpr ⟨_, _, _, _, _, _, rfl, JsonPiece.readPieces_pieces name _, skip_cons rfl _,
        by rw [second, own], .inl ⟨by rw [skip_append inside, skip_cons rfl], rfl⟩⟩
    | cons next fields =>
      simp only [writtenFields, List.append_assoc, List.length_append, List.length_cons, List.cons_append] at enough ⊢
      have others := ih (by simp) (fun field member => keys field (List.mem_cons_of_mem _ member))
        (fun field member => sound field (List.mem_cons_of_mem _ member))
        (fun field member => each field (List.mem_cons_of_mem _ member)) (by omega : _ < steps)
      have own := each _ List.mem_cons_self steps
        (',' :: (writtenFields layout depth (next :: fields) ++ (blank ++ '}' :: rest))) (by dsimp only; omega)
        (stops_cons _ rfl)
      rw [first]
      exact readFields_succ_eq_some_iff.mpr ⟨_, _, _, _, _, _, rfl, JsonPiece.readPieces_pieces name _, skip_cons rfl _,
        by rw [second, own], .inr ⟨_, _, skip_cons rfl _, others, rfl⟩⟩

theorem ReadsBack.of_succ {t : JsonText} (sound : t.Sound)
    (read : ∀ steps rest, 2 * (written layout depth t).length ≤ steps + 1 → JsonNumeral.Ends rest →
      readValue (steps + 1) (written layout depth t ++ rest) = some (t.reread, rest)) :
    t.ReadsBack layout depth := by
  intro steps rest enough ends
  obtain ⟨c, s, opens, -⟩ := sound.written_cons layout depth
  cases steps with
  | zero => simp [opens] at enough
  | succ steps => exact read steps rest enough ends

theorem Sound.readsBack {t : JsonText} (sound : t.Sound) (layout : Layout) (depth : Nat) :
    t.ReadsBack layout depth := by
  induction sound generalizing depth with
  | null => exact .of_succ .null fun _ _ _ _ => rfl
  | bool b => exact .of_succ (.bool b) fun _ _ _ _ => by cases b <;> rfl
  | number sound => exact .of_succ (.number sound) fun steps _ _ ends =>
      readValue_of_readNumeral (JsonNumeral.readNumeral_append sound ends) steps
  | string s =>
    refine .of_succ (.string s) fun steps rest _ _ => ?_
    have read := JsonPiece.readPieces_pieces s rest
    simp only [ofString, written, JsonPiece.quoted, List.cons_append, List.append_assoc, List.nil_append, readValue,
      read, reread]
    rfl
  | @array items each ih =>
    refine .of_succ (.array each) fun steps rest enough _ => ?_
    cases items with
    | nil => rfl
    | cons item items =>
      simp only [written, List.length_cons, List.length_append, List.cons_append, List.append_assoc, List.nil_append,
        List.length_nil, reread] at enough ⊢
      have read := readItems_writtenItems (by simp) each (fun item member => ih item member (depth + 1))
        (layout.gap_blank depth) rest (by omega : _ < steps)
      exact readValue_array_eq_some_iff.mpr (.inr ⟨_, read, rfl⟩)
  | @object fields keys each ih =>
    refine .of_succ (.object keys each) fun steps rest enough _ => ?_
    cases fields with
    | nil => rfl
    | cons field fields =>
      simp only [written, List.length_cons, List.length_append, List.cons_append, List.append_assoc, List.nil_append,
        List.length_nil, reread] at enough ⊢
      have read := readFields_writtenFields (by simp) keys each (fun field member => ih field member (depth + 1))
        (layout.gap_blank depth) rest (by omega : _ < steps)
      exact readValue_object_eq_some_iff.mpr (.inr ⟨_, read, rfl⟩)

theorem Sound.read?_written {t : JsonText} (sound : t.Sound) (layout : Layout) :
    read? (written layout 0 t) = some t.reread := by
  obtain ⟨c, s, opens, notSpace⟩ := sound.written_cons layout 0
  have read := sound.readsBack layout 0 (2 * (written layout 0 t).length + 2) [] (by omega) (stops_nil _)
  have front : skip (written layout 0 t) = written layout 0 t := by rw [opens, skip_cons notSpace]
  rw [List.append_nil] at read
  exact read?_eq_some_iff.mpr ⟨[], front.symm ▸ read, rfl⟩

mutual

theorem compact_eq_written (depth : Nat) : (t : JsonText) → t.compact = written .compact depth t
  | .null | .bool _ | .number _ | .string _ => rfl
  | .array [] | .object [] => rfl
  | .array (item :: items) => by
    simp [compact, written, compactItems_eq_written (depth + 1) (item :: items), Layout.compact]
  | .object (field :: fields) => by
    simp [compact, written, compactFields_eq_written (depth + 1) (field :: fields), Layout.compact]

theorem compactItems_eq_written (depth : Nat) :
    (items : List JsonText) → compactItems items = writtenItems .compact depth items
  | [] => rfl
  | [item] => compact_eq_written depth item
  | item :: next :: items => by
    simp [compactItems, writtenItems, compact_eq_written depth item, compactItems_eq_written depth (next :: items),
      Layout.compact]

theorem compactFields_eq_written (depth : Nat) : (fields : List (List JsonPiece × JsonText)) →
    compactFields fields = writtenFields .compact depth fields
  | [] => rfl
  | [(key, value)] => by
    simp [compactFields, writtenFields, compact_eq_written depth value, Layout.compact]
  | (key, value) :: next :: fields => by
    simp [compactFields, writtenFields, compact_eq_written depth value,
      compactFields_eq_written depth (next :: fields), Layout.compact]

end

mutual

theorem pretty_eq_written (depth : Nat) : (t : JsonText) → t.pretty depth = written .pretty depth t
  | .null | .bool _ | .number _ | .string _ => rfl
  | .array [] | .object [] => rfl
  | .array (item :: items) => by
    simp [pretty, written, prettyItems_eq_written (depth + 1) (item :: items), Layout.pretty]
  | .object (field :: fields) => by
    simp [pretty, written, prettyFields_eq_written (depth + 1) (field :: fields), Layout.pretty]

theorem prettyItems_eq_written (depth : Nat) :
    (items : List JsonText) → prettyItems depth items = writtenItems .pretty depth items
  | [] => rfl
  | [item] => congrArg (newline depth ++ ·) (pretty_eq_written depth item)
  | item :: next :: items => by
    simp [prettyItems, writtenItems, pretty_eq_written depth item, prettyItems_eq_written depth (next :: items),
      Layout.pretty]

theorem prettyFields_eq_written (depth : Nat) : (fields : List (List JsonPiece × JsonText)) →
    prettyFields depth fields = writtenFields .pretty depth fields
  | [] => rfl
  | [(key, value)] => by
    simp [prettyFields, writtenFields, pretty_eq_written depth value, Layout.pretty]
  | (key, value) :: next :: fields => by
    simp [prettyFields, writtenFields, pretty_eq_written depth value,
      prettyFields_eq_written depth (next :: fields), Layout.pretty]

end

/-- Each printer writes what the reader reads. -/
theorem Sound.read?_compact {t : JsonText} (sound : t.Sound) : read? t.compact = some t.reread := by
  rw [compact_eq_written 0]
  exact sound.read?_written .compact

theorem Sound.read?_pretty {t : JsonText} (sound : t.Sound) : read? (t.pretty 0) = some t.reread := by
  rw [pretty_eq_written 0]
  exact sound.read?_written .pretty

end JsonText

end RobotScript
