import RobotScript.Proofs.Program.Symbol
import RobotScript.Proofs.Text.Runs
import RobotScript.Script.Literal

namespace RobotScript

namespace Quoted

/-- What follows an opening quote, up to and with the quote that closes it. -/
inductive Closes (quote : Char) : List Char → Prop
  | close : Closes quote [quote]
  | escaped (c : Char) {s : List Char} : Closes quote s → Closes quote ('\\' :: c :: s)
  | plain {c : Char} {s : List Char} : c ≠ quote → c ≠ '\\' → Closes quote s → Closes quote (c :: s)

theorem Closes.ne_nil {quote : Char} {s : List Char} (closes : Closes quote s) : s ≠ [] := by
  cases closes <;> simp

theorem Closes.ends {quote : Char} {s : List Char} (closes : Closes quote s) :
    ∃ inner, s = inner ++ [quote] := by
  induction closes with
  | close => exact ⟨[], rfl⟩
  | escaped c _ ih =>
    obtain ⟨inner, rfl⟩ := ih
    exact ⟨'\\' :: c :: inner, rfl⟩
  | @plain c s _ _ _ ih =>
    obtain ⟨inner, rfl⟩ := ih
    exact ⟨c :: inner, rfl⟩

theorem close?_cons {quote c : Char} (s : List Char) (plain : c ≠ '\\') :
    close? quote (c :: s) =
      if c == quote then some ([c], s)
      else (close? quote s).map fun (inner, rest) => (c :: inner, rest) :=
  close?.eq_3 quote c s fun _ _ escape _ => plain escape

theorem Closes.close?_append {quote : Char} {inner : List Char} (closes : Closes quote inner)
    (unescaped : quote ≠ '\\') (rest : List Char) :
    close? quote (inner ++ rest) = some (inner, rest) := by
  induction closes with
  | close => simp [close?_cons rest unescaped]
  | escaped c _ ih => simp [close?, ih]
  | @plain c s other plain _ ih => simp [close?_cons _ plain, other, ih]

theorem closes_of_close? {quote : Char} {s inner rest : List Char}
    (found : close? quote s = some (inner, rest)) : Closes quote inner ∧ s = inner ++ rest := by
  fun_induction close? quote s generalizing inner with
  | case1 => simp at found
  | case2 c s ih =>
    obtain ⟨⟨tail, after⟩, tailFound, same⟩ := Option.map_eq_some_iff.mp found
    cases same
    obtain ⟨closes, split⟩ := ih tailFound
    exact ⟨.escaped c closes, by rw [split]; rfl⟩
  | case3 c s _ isClose =>
    cases Option.some.inj found
    cases eq_of_beq isClose
    exact ⟨.close, rfl⟩
  | case4 c s escape other ih =>
    obtain ⟨⟨tail, after⟩, tailFound, same⟩ := Option.map_eq_some_iff.mp found
    cases same
    obtain ⟨closes, split⟩ := ih tailFound
    obtain ⟨next, more, nonempty⟩ := List.exists_cons_of_ne_nil closes.ne_nil
    have plain : c ≠ '\\' := fun backslash =>
      escape next (more ++ rest) backslash (by rw [split, nonempty]; rfl)
    exact ⟨.plain (by simpa using other) plain closes, by rw [split]; rfl⟩

theorem quote_ne_backslash {c : Char} (quote : isQuote c = true) : c ≠ '\\' := by
  rintro rfl
  exact absurd quote (by decide)

theorem split?_cons {c : Char} (s : List Char) (quote : isQuote c = true) :
    split? (c :: s) = (close? c s).map fun (inner, rest) => (c :: inner, rest) := by
  simp [split?, quote]

/-- A quoted literal reaches to the first quote that closes it, whatever follows. -/
theorem split?_eq_some_iff {s literal rest : List Char} :
    split? s = some (literal, rest) ↔
      (∃ quote inner, isQuote quote = true ∧ Closes quote inner ∧ literal = quote :: inner) ∧
        s = literal ++ rest := by
  constructor
  · intro found
    cases s with
    | nil => simp [split?] at found
    | cons c s =>
      by_cases quote : isQuote c = true
      · rw [split?_cons s quote] at found
        obtain ⟨⟨inner, after⟩, closed, same⟩ := Option.map_eq_some_iff.mp found
        cases same
        obtain ⟨closes, split⟩ := closes_of_close? closed
        exact ⟨⟨c, inner, quote, closes, rfl⟩, by rw [split]; rfl⟩
      · simp [split?, quote] at found
  · rintro ⟨⟨quote, inner, isQuote, closes, rfl⟩, rfl⟩
    rw [List.cons_append, split?_cons _ isQuote,
      closes.close?_append (quote_ne_backslash isQuote)]
    rfl

theorem isWhole_iff {s : List Char} :
    isWhole s = true ↔
      ∃ quote inner, isQuote quote = true ∧ Closes quote inner ∧ s = quote :: inner := by
  constructor
  · intro whole
    unfold isWhole at whole
    split at whole
    · rename_i literal found
      obtain ⟨shape, split⟩ := split?_eq_some_iff.mp found
      rw [List.append_nil] at split
      rwa [← split] at shape
    · simp at whole
  · intro shape
    have found : split? s = some (s, []) := split?_eq_some_iff.mpr ⟨shape, by simp⟩
    simp [isWhole, found]

theorem split?_append_of_isWhole {literal : List Char} (whole : isWhole literal = true)
    (rest : List Char) : split? (literal ++ rest) = some (literal, rest) :=
  split?_eq_some_iff.mpr ⟨isWhole_iff.mp whole, rfl⟩

theorem isWhole_of_split? {s literal rest : List Char} (found : split? s = some (literal, rest)) :
    isWhole literal = true ∧ s = literal ++ rest := by
  obtain ⟨shape, split⟩ := split?_eq_some_iff.mp found
  exact ⟨isWhole_iff.mpr shape, split⟩

/-- No double quote comes from a backslash, so that one pass does for both. -/
theorem encode_eq_flatMap (s : List Char) :
    encode s = s.flatMap fun c => if c == '"' || c == '\\' then ['\\', c] else [c] := by
  rw [encode, Text.replace, Text.replace, List.flatMap_assoc]
  refine congrArg (s.flatMap ·) (funext fun c => ?_)
  by_cases slash : c = '\\'
  · simp [slash]
  · by_cases quote : c = '"' <;> simp [slash, quote]

theorem encode_cons_special {c : Char} (special : c = '"' ∨ c = '\\') (s : List Char) :
    encode (c :: s) = '\\' :: c :: encode s := by
  simp [encode_eq_flatMap, special]

theorem encode_cons_plain {c : Char} (plain : ¬(c = '"' ∨ c = '\\')) (s : List Char) :
    encode (c :: s) = c :: encode s := by
  simp [encode_eq_flatMap, plain]

theorem closes_encode (s : List Char) : Closes '"' (encode s ++ ['"']) := by
  induction s with
  | nil => exact .close
  | cons c s ih =>
    by_cases special : c = '"' ∨ c = '\\'
    · rw [encode_cons_special special]
      exact .escaped c ih
    · rw [encode_cons_plain special]
      exact .plain (fun quote => special (.inl quote)) (fun slash => special (.inr slash)) ih

theorem isWhole_encode (s : List Char) : isWhole ('"' :: encode s ++ ['"']) = true :=
  isWhole_iff.mpr ⟨'"', encode s ++ ['"'], by decide, closes_encode s, rfl⟩

theorem encode_eq_self {s : List Char} (plain : ∀ c ∈ s, c ≠ '"' ∧ c ≠ '\\') : encode s = s := by
  induction s with
  | nil => rfl
  | cons c s ih =>
    obtain ⟨first, others⟩ := List.forall_mem_cons.mp plain
    rw [encode_cons_plain (not_or.mpr first), ih others]

theorem backslash_mem_encode_iff {s : List Char} : '\\' ∈ encode s ↔ ∃ c ∈ s, c = '"' ∨ c = '\\' := by
  simp only [encode_eq_flatMap, List.mem_flatMap, Bool.or_eq_true, beq_iff_eq]
  refine exists_congr fun c => and_congr_right fun _ => ?_
  split
  · rename_i special
    simp [special]
  · rename_i plain
    simp only [List.mem_singleton, plain, iff_false]
    exact fun same => plain (.inr same.symm)

/-- Encoding adds one backslash for each character that needs it. -/
theorem length_encode (s : List Char) :
    (encode s).length = s.length + s.countP fun c => c == '"' || c == '\\' := by
  induction s with
  | nil => rfl
  | cons c s ih =>
    rw [encode_eq_flatMap, List.flatMap_cons, ← encode_eq_flatMap, List.length_append, ih, List.length_cons,
      List.countP_cons]
    split <;> simp only [List.length_cons, List.length_nil] <;> omega

theorem length_lt_encode {s : List Char} (escaped : '\\' ∈ encode s) : s.length < (encode s).length := by
  obtain ⟨c, member, special⟩ := backslash_mem_encode_iff.mp escaped
  have positive : 0 < s.countP fun c => c == '"' || c == '\\' :=
    List.countP_pos_iff.mpr ⟨c, member, by simpa using special⟩
  rw [length_encode]
  omega

theorem encode_of_not_mem {s : List Char} (plain : '\\' ∉ encode s) : encode s = s := by
  refine encode_eq_self fun c member => ?_
  have noSpecial := fun special => plain (backslash_mem_encode_iff.mpr ⟨c, member, special⟩)
  exact not_or.mp noSpecial

theorem decode_cons {c : Char} (s : List Char) (plain : c ≠ '\\') :
    decode (c :: s) = c :: decode s := by
  rw [decode.eq_3 c s fun _ _ escape _ => plain escape]
  simp [plain]

theorem decode_encode (s : List Char) : decode (encode s) = s := by
  induction s with
  | nil => rfl
  | cons c s ih =>
    by_cases special : c = '"' ∨ c = '\\'
    · rw [encode_cons_special special, decode, ih]
    · rw [encode_cons_plain special, decode_cons _ fun slash => special (.inr slash), ih]

theorem decode_sublist (s : List Char) : (decode s).Sublist s := by
  fun_induction decode s with
  | case1 => exact .slnil
  | case2 c s ih => exact (ih.cons_cons c).cons _
  | case3 c s _ _ ih => exact ih.cons c
  | case4 c s _ _ ih => exact ih.cons_cons c

end Quoted

theorem isDigitRun_iff {s : List Char} :
    isDigitRun s = true ↔ s ≠ [] ∧ ∀ c ∈ s, isDigit c = true := by
  simp [isDigitRun]

theorem isDigitRun_digits (n : Nat) : isDigitRun (digits n) = true :=
  isDigitRun_iff.mpr ⟨digits_ne_nil n, fun _ => isDigit_of_mem_digits⟩

/-- Digits, and perhaps a point with more digits. -/
inductive Unsigned : List Char → Prop
  | whole {s : List Char} : isDigitRun s = true → Unsigned s
  | point {s t : List Char} : isDigitRun s = true → isDigitRun t = true → Unsigned (s ++ '.' :: t)

theorem Unsigned.starts {s : List Char} (unsigned : Unsigned s) :
    ∃ c t, s = c :: t ∧ isDigit c = true := by
  have run {r : List Char} (more : List Char) (digit : isDigitRun r = true) :
      ∃ c t, r ++ more = c :: t ∧ isDigit c = true := by
    obtain ⟨nonempty, all⟩ := isDigitRun_iff.mp digit
    obtain ⟨c, t, rfl⟩ := List.exists_cons_of_ne_nil nonempty
    exact ⟨c, t ++ more, rfl, all c (by simp)⟩
  cases unsigned with
  | whole digit => simpa using run [] digit
  | point digit _ => exact run _ digit

theorem Unsigned.mem {s : List Char} (unsigned : Unsigned s) {c : Char} (member : c ∈ s) :
    isDigit c = true ∨ c = '.' := by
  cases unsigned with
  | whole run => exact .inl ((isDigitRun_iff.mp run).2 c member)
  | point run fraction =>
    simp only [List.mem_append, List.mem_cons] at member
    rcases member with inWhole | point | inFraction
    · exact .inl ((isDigitRun_iff.mp run).2 c inWhole)
    · exact .inr point
    · exact .inl ((isDigitRun_iff.mp fraction).2 c inFraction)

theorem ne_point_of_isDigit {c : Char} (digit : isDigit c = true) : (c != '.') = true := by
  simp only [bne_iff_ne]
  rintro rfl
  exact absurd digit (by decide)

/-- The cut at the first point that `isNumeric` makes behind the sign. -/
theorem unsigned_iff {t : List Char} :
    Unsigned t ↔ (match t.dropWhile (· != '.') with
      | [] => isDigitRun t
      | _ :: fraction => isDigitRun (t.takeWhile (· != '.')) && isDigitRun fraction) = true := by
  constructor
  · intro unsigned
    cases unsigned with
    | whole run =>
      have none : t.dropWhile (· != '.') = [] := List.dropWhile_eq_nil_iff.mpr fun c member =>
        ne_point_of_isDigit ((isDigitRun_iff.mp run).2 c member)
      simpa [none] using run
    | @point whole fraction run digits =>
      have before : ∀ c ∈ whole, (c != '.') = true := fun c member =>
        ne_point_of_isDigit ((isDigitRun_iff.mp run).2 c member)
      have stop := Text.stops_cons (p := (· != '.')) fraction (c := '.') rfl
      rw [Text.takeWhile_append_of_stops before stop, Text.dropWhile_append_of_stops before stop]
      simp [run, digits]
  · intro shape
    split at shape
    · exact .whole shape
    · rename_i point fraction cut
      have stop := Text.stops_dropWhile (· != '.') t point (by simp [cut])
      have split := List.takeWhile_append_dropWhile (p := (· != '.')) (l := t)
      rw [cut] at split
      obtain ⟨run, digits⟩ := Bool.and_eq_true_iff.mp shape
      rw [← split, show point = '.' by simpa using stop]
      exact .point run digits

theorem isNumeric_iff {s : List Char} :
    isNumeric s = true ↔ ∃ t, Unsigned t ∧ (s = t ∨ s = '-' :: t) := by
  unfold isNumeric
  split
  · rename_i t
    refine unsigned_iff.symm.trans ⟨fun unsigned => ⟨t, unsigned, .inr rfl⟩, ?_⟩
    rintro ⟨u, unsigned, same | same⟩
    · obtain ⟨c, v, starts, digit⟩ := unsigned.starts
      rw [← same] at starts
      cases (List.cons.inj starts).1
      exact absurd digit (by decide)
    · rwa [(List.cons.inj same).2]
  · rename_i s unsigned
    refine unsigned_iff.symm.trans ⟨fun shape => ⟨_, shape, .inl rfl⟩, ?_⟩
    rintro ⟨u, shape, same | same⟩
    · rwa [same]
    · exact absurd same (unsigned u)

theorem isNumeric_intDigits (n : Int) : isNumeric (intDigits n) = true := by
  refine isNumeric_iff.mpr ⟨digits n.natAbs, .whole (isDigitRun_digits _), ?_⟩
  unfold intDigits
  split
  · exact .inr rfl
  · exact .inl rfl

/-- The characters of the values that stand without quotes. -/
def isPlainChar (c : Char) : Bool := isCommandChar c || c == '-' || c == '.'

theorem isPlainChar_of_isNumeric {s : List Char} (numeric : isNumeric s = true) :
    ∀ c ∈ s, isPlainChar c = true := by
  obtain ⟨t, unsigned, same⟩ := isNumeric_iff.mp numeric
  have inside : ∀ c ∈ t, isPlainChar c = true := by
    intro c member
    rcases unsigned.mem member with digit | rfl
    · simp [isPlainChar, isCommandChar, digit]
    · decide
  rcases same with rfl | rfl
  · exact inside
  · exact List.forall_mem_cons.mpr ⟨by decide, inside⟩

theorem isPlainChar_of_mem_symbol {name : Symbol} {c : Char} (member : c ∈ name.chars) :
    isPlainChar c = true := by
  simp [isPlainChar, Symbol.isCommandChar_of_mem member]

theorem isCommandChar_bounds {c : Char} (inWord : isCommandChar c = true) :
    (48 ≤ c.toNat ∧ c.toNat ≤ 57) ∨ (65 ≤ c.toNat ∧ c.toNat ≤ 90) ∨ c.toNat = 95 := by
  simp only [isCommandChar, isDigit, Bool.or_eq_true, Bool.and_eq_true, decide_eq_true_eq,
    beq_iff_eq, Char.le_def, UInt32.le_iff_toNat_le] at inWord
  rcases inWord with (letter | digit) | rfl
  · exact .inr (.inl letter)
  · exact .inl digit
  · exact .inr (.inr rfl)

theorem not_isBlank_of_isPlainChar {c : Char} (plain : isPlainChar c = true) :
    Text.isBlank c = false := by
  simp only [isPlainChar, Bool.or_eq_true, beq_iff_eq] at plain
  rcases plain with (inWord | rfl) | rfl
  · have bounds := isCommandChar_bounds inWord
    simp only [Text.isBlank, Bool.or_eq_false_iff, Bool.and_eq_false_iff, decide_eq_false_iff_not,
      beq_eq_false_iff_ne]
    omega
  · decide
  · decide

theorem trim_of_plain {s : List Char} (plain : ∀ c ∈ s, isPlainChar c = true) : Text.trim s = s :=
  Text.trim_eq_self_iff.mpr
    ⟨fun c first => not_isBlank_of_isPlainChar (plain c (List.mem_of_mem_head? first)),
      fun c last => not_isBlank_of_isPlainChar (plain c (List.mem_of_mem_getLast? last))⟩

theorem not_isBlank_of_isQuote {c : Char} (quote : Quoted.isQuote c = true) :
    Text.isBlank c = false := by
  simp only [Quoted.isQuote, Bool.or_eq_true, beq_iff_eq] at quote
  rcases quote with rfl | rfl <;> decide

theorem trim_of_isWhole {s : List Char} (whole : Quoted.isWhole s = true) : Text.trim s = s := by
  obtain ⟨quote, inner, isQuote, closes, rfl⟩ := Quoted.isWhole_iff.mp whole
  obtain ⟨content, rfl⟩ := closes.ends
  have solid := not_isBlank_of_isQuote isQuote
  refine Text.trim_eq_self_iff.mpr ⟨?_, ?_⟩
  · simpa using solid
  · intro c last
    rw [← List.cons_append, List.getLast?_concat, Option.mem_some] at last
    rwa [← last]

theorem ofChars?_of_isNumeric {s : List Char} (numeric : isNumeric s = true) :
    Symbol.ofChars? s = none := by
  cases found : Symbol.ofChars? s with
  | none => rfl
  | some name =>
    obtain ⟨letter, c, shape, isLetter, _⟩ := name.chars_shape
    obtain ⟨t, unsigned, same⟩ := isNumeric_iff.mp numeric
    obtain ⟨d, u, starts, digit⟩ := unsigned.starts
    rw [Symbol.chars_of_ofChars? found, shape, starts] at same
    have numeral : (isDigit letter || letter == '-') = true := by
      rcases same with same | same
      · rw [(List.cons.inj same).1, digit, Bool.true_or]
      · rw [(List.cons.inj same).1]
        rfl
    exact absurd isLetter (Text.not_mem_of_class (p := fun c => isDigit c || c == '-') numeral (by decide))

/-- A text that stands in a script as it is. -/
inductive Verbatim : List Char → Prop
  | symbol (name : Symbol) : Verbatim name.chars
  | number {s : List Char} : isNumeric s = true → Verbatim s
  | quoted {s : List Char} : Quoted.isWhole s = true → Verbatim s

theorem Verbatim.trim {s : List Char} (verbatim : Verbatim s) : Text.trim s = s := by
  cases verbatim with
  | symbol name => exact trim_of_plain fun _ => isPlainChar_of_mem_symbol
  | number numeric => exact trim_of_plain (isPlainChar_of_isNumeric numeric)
  | quoted whole => exact trim_of_isWhole whole

theorem verbatim_iff {s : List Char} :
    (isNumeric s || (Symbol.ofChars? s).isSome || Quoted.isWhole s) = true ↔ Verbatim s := by
  simp only [Bool.or_eq_true]
  constructor
  · rintro ((numeric | isSymbol) | whole)
    · exact .number numeric
    · obtain ⟨name, found⟩ := Option.isSome_iff_exists.mp isSymbol
      rw [Symbol.chars_of_ofChars? found]
      exact .symbol name
    · exact .quoted whole
  · intro verbatim
    cases verbatim with
    | symbol name => exact .inl (.inr (by simp [Symbol.ofChars?_chars]))
    | number numeric => exact .inl (.inl numeric)
    | quoted whole => exact .inr whole

theorem Verbatim.ne_nil {s : List Char} (verbatim : Verbatim s) : s ≠ [] := by
  rintro rfl
  exact absurd (verbatim_iff.mpr verbatim) (by decide)

/-- No value starts like the mark of the default case. -/
theorem Verbatim.starts {s : List Char} (verbatim : Verbatim s) : ∃ c t, s = c :: t ∧ c ≠ 'D' := by
  cases verbatim with
  | symbol name =>
    obtain ⟨letter, c, shape, isLetter, _⟩ := name.chars_shape
    refine ⟨letter, [c], shape, ?_⟩
    rintro rfl
    exact absurd isLetter (by decide)
  | number numeric =>
    obtain ⟨t, unsigned, same⟩ := isNumeric_iff.mp numeric
    obtain ⟨c, u, rfl, digit⟩ := unsigned.starts
    rcases same with rfl | rfl
    · refine ⟨c, u, rfl, ?_⟩
      rintro rfl
      exact absurd digit (by decide)
    · exact ⟨'-', c :: u, rfl, by decide⟩
  | quoted whole =>
    obtain ⟨quote, inner, isQuote, _, rfl⟩ := Quoted.isWhole_iff.mp whole
    refine ⟨quote, inner, rfl, ?_⟩
    rintro rfl
    exact absurd isQuote (by decide)

theorem textLiteral_of_verbatim {s : List Char} (verbatim : Verbatim (Text.trim s)) :
    textLiteral s = Text.trim s := by
  simp only [textLiteral, List.isEmpty_iff, verbatim.ne_nil, if_false, verbatim_iff.mpr verbatim, if_true]

theorem textLiteral_of_not_verbatim {s : List Char} (other : ¬ Verbatim (Text.trim s)) :
    textLiteral s = '"' :: Quoted.encode (Text.trim s) ++ ['"'] := by
  have test := mt verbatim_iff.mp other
  by_cases empty : Text.trim s = []
  · rw [textLiteral, empty]
    rfl
  · simp only [textLiteral, List.isEmpty_iff, empty, if_false]
    rw [if_neg test]

theorem verbatim_textLiteral (s : List Char) : Verbatim (textLiteral s) := by
  by_cases verbatim : Verbatim (Text.trim s)
  · rwa [textLiteral_of_verbatim verbatim]
  · rw [textLiteral_of_not_verbatim verbatim]
    exact .quoted (Quoted.isWhole_encode _)

theorem Verbatim.textLiteral {s : List Char} (verbatim : Verbatim s) :
    RobotScript.textLiteral s = s := by
  have trimmed := verbatim.trim
  rw [textLiteral_of_verbatim (trimmed.symm ▸ verbatim), trimmed]

/-- Where a content prints as the literal that it was taken from, it has no blank around it and does not
stand in a script as it is. -/
theorem textLiteral_content {s content : List Char} (decoded : Quoted.decode (s.drop 1).dropLast = content)
    (printed : textLiteral content = s) :
    Text.trim content = content ∧ ¬Verbatim content ∧ s = '"' :: Quoted.encode content ++ ['"'] := by
  have shorter : content.length < s.length := by
    have nonempty : s ≠ [] := printed ▸ (verbatim_textLiteral content).ne_nil
    have positive := List.length_pos_of_ne_nil nonempty
    have dropped := (Quoted.decode_sublist (s.drop 1).dropLast).length_le
    rw [decoded, List.length_dropLast, List.length_drop] at dropped
    omega
  have other : ¬Verbatim (Text.trim content) := by
    intro verbatim
    have trimmed := (Text.trim_sublist content).length_le
    rw [← textLiteral_of_verbatim verbatim, printed] at trimmed
    omega
  have literal := textLiteral_of_not_verbatim other
  have trimmed : Text.trim content = content := by
    have again : Quoted.decode (s.drop 1).dropLast = Text.trim content := by
      rw [← printed, literal, List.cons_append, List.drop_one, List.tail_cons, List.dropLast_concat,
        Quoted.decode_encode]
    exact again.symm.trans decoded
  rw [trimmed] at literal other
  exact ⟨trimmed, other, printed.symm.trans literal⟩

end RobotScript
