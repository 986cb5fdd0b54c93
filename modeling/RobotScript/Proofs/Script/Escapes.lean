import RobotScript.Proofs.Script.Bytes
import RobotScript.Proofs.Script.Normal

namespace RobotScript

namespace Quoted

open Script

/-- Whether the character behind a text is escaped: a backslash stands right before it that is not escaped itself. -/
def escapes (s : List Char) : Bool := s.foldl (fun escaped c => !escaped && c == '\\') false

theorem escapes_escaped (c : Char) (s : List Char) : escapes ('\\' :: c :: s) = escapes s := rfl

theorem escapes_plain {c : Char} (plain : c ≠ '\\') (s : List Char) : escapes (c :: s) = escapes s := by
  simp [escapes, beq_eq_false_iff_ne.mpr plain]

/-- What stands between two quotes of one literal: behind it a quote is not escaped, and every quote of this kind in it
is. -/
structure Between (quote : Char) (inner : List Char) : Prop where
  ends : escapes inner = false
  others : ∀ front back, inner = front ++ quote :: back → escapes front = true

/-- A quote opens the text, and a later one of its kind is not escaped. -/
def Closable (s : List Char) : Prop :=
  ∃ quote inner rest, isQuote quote = true ∧ escapes inner = false ∧ s = quote :: (inner ++ quote :: rest)

/-- A quoted literal by its escapes: the quote that opens it stands again at its end and nowhere else, escaped ones
apart. -/
def IsLiteral (s : List Char) : Prop :=
  ∃ quote inner, isQuote quote = true ∧ Between quote inner ∧ s = quote :: (inner ++ [quote])

/-- Among the quotes that are not escaped one is the first. -/
theorem exists_between {quote : Char} {inner : List Char} (ends : escapes inner = false) (rest : List Char) :
    ∃ first behind, Between quote first ∧ inner ++ quote :: rest = first ++ quote :: behind := by
  by_cases others : ∀ front back, inner = front ++ quote :: back → escapes front = true
  · exact ⟨inner, rest, ⟨ends, others⟩, rfl⟩
  · simp only [not_forall, Bool.not_eq_true] at others
    obtain ⟨front, back, split, earlier⟩ := others
    obtain ⟨first, behind, between, same⟩ := exists_between earlier (back ++ quote :: rest)
    refine ⟨first, behind, between, ?_⟩
    rw [split, List.append_assoc]
    exact same
termination_by inner.length
decreasing_by
  rw [split, List.length_append, List.length_cons]
  omega

theorem closable_iff {s : List Char} : Closable s ↔ ∃ literal rest, IsLiteral literal ∧ s = literal ++ rest := by
  constructor
  · rintro ⟨quote, inner, rest, isQuote, ends, rfl⟩
    obtain ⟨first, behind, between, same⟩ := exists_between ends rest
    refine ⟨quote :: (first ++ [quote]), behind, ⟨quote, first, isQuote, between, rfl⟩, ?_⟩
    rw [same, List.cons_append, List.append_assoc]
    rfl
  · rintro ⟨_, rest, ⟨quote, inner, isQuote, between, rfl⟩, rfl⟩
    refine ⟨quote, inner, rest, isQuote, between.ends, ?_⟩
    rw [List.cons_append, List.append_assoc]
    rfl

theorem Closes.between {quote : Char} (plain : quote ≠ '\\') {s : List Char} (closes : Closes quote s) :
    ∃ inner, Between quote inner ∧ s = inner ++ [quote] := by
  induction closes with
  | close => exact ⟨[], ⟨rfl, by simp⟩, rfl⟩
  | escaped c _ ih =>
    obtain ⟨inner, between, rfl⟩ := ih
    refine ⟨'\\' :: c :: inner, ⟨(escapes_escaped c inner).trans between.ends, ?_⟩, rfl⟩
    intro front back split
    rcases front with - | ⟨d, - | ⟨e, front⟩⟩
    · exact absurd (List.cons.inj split).1.symm plain
    · rw [← (List.cons.inj split).1]
      rfl
    · obtain ⟨rfl, tail⟩ := List.cons.inj split
      exact between.others front back (List.cons.inj tail).2
  | @plain c s other notSlash _ ih =>
    obtain ⟨inner, between, rfl⟩ := ih
    refine ⟨c :: inner, ⟨(escapes_plain notSlash inner).trans between.ends, ?_⟩, rfl⟩
    intro front back split
    cases front with
    | nil => exact absurd (List.cons.inj split).1 other
    | cons d front =>
      obtain ⟨rfl, tail⟩ := List.cons.inj split
      rw [escapes_plain notSlash]
      exact between.others front back tail

theorem Between.closes {quote : Char} {inner : List Char} (between : Between quote inner) :
    Closes quote (inner ++ [quote]) := by
  induction inner using decode.induct with
  | case1 => exact .close
  | case2 c s ih =>
    refine .escaped c (ih ⟨(escapes_escaped c s).symm.trans between.ends, fun front back split => ?_⟩)
    exact between.others ('\\' :: c :: front) back (by rw [split]; rfl)
  | case3 c s last slash _ =>
    -- A backslash at the end would escape the quote behind it.
    have alone : s = [] := by
      cases s with
      | nil => rfl
      | cons d s => exact (last d s (eq_of_beq slash) rfl).elim
    rw [alone, eq_of_beq slash] at between
    exact absurd between.ends (by decide)
  | case4 c s _ plain ih =>
    have plain : c ≠ '\\' := by simpa using plain
    have other : c ≠ quote := by
      rintro rfl
      exact absurd (between.others [] s rfl) (by decide)
    refine .plain other plain (ih ⟨(escapes_plain plain s).symm.trans between.ends, fun front back split => ?_⟩)
    rw [← escapes_plain plain]
    exact between.others (c :: front) back (by rw [split]; rfl)

theorem isLiteral_iff {s : List Char} :
    IsLiteral s ↔ ∃ quote inner, isQuote quote = true ∧ Closes quote inner ∧ s = quote :: inner := by
  constructor
  · rintro ⟨quote, inner, isQuote, between, rfl⟩
    exact ⟨quote, inner ++ [quote], isQuote, between.closes, rfl⟩
  · rintro ⟨quote, closing, isQuote, closes, rfl⟩
    obtain ⟨inner, between, rfl⟩ := closes.between (quote_ne_backslash isQuote)
    exact ⟨quote, inner, isQuote, between, rfl⟩

theorem split?_eq_some_iff_isLiteral {s literal rest : List Char} :
    split? s = some (literal, rest) ↔ IsLiteral literal ∧ s = literal ++ rest := by
  rw [split?_eq_some_iff, isLiteral_iff]

theorem scan?_eq (text : String) : scan? text = (split? text.toList).map fun found => Text.byteSize found.1 := by
  rw [← scan?_ofList, String.ofList_toList]

theorem isSome_scan?_iff {text : String} : (scan? text).isSome = true ↔ Closable text.toList := by
  rw [scan?_eq, Option.isSome_map, Option.isSome_iff_exists, closable_iff]
  constructor
  · rintro ⟨⟨literal, rest⟩, found⟩
    exact ⟨literal, rest, split?_eq_some_iff_isLiteral.mp found⟩
  · rintro ⟨literal, rest, found⟩
    exact ⟨(literal, rest), split?_eq_some_iff_isLiteral.mpr found⟩

theorem scan?_eq_some_iff {text : String} {n : Nat} :
    scan? text = some n ↔
      ∃ literal rest : String, text = literal ++ rest ∧ IsLiteral literal.toList ∧ literal.utf8ByteSize = n := by
  rw [scan?_eq, Option.map_eq_some_iff]
  constructor
  · rintro ⟨⟨literal, rest⟩, found, rfl⟩
    obtain ⟨isLiteral, split⟩ := split?_eq_some_iff_isLiteral.mp found
    refine ⟨String.ofList literal, String.ofList rest, ?_, ?_, (byteSize_eq_utf8ByteSize literal).symm⟩
    · rw [← String.ofList_append, ← split, String.ofList_toList]
    · rwa [String.toList_ofList]
  · rintro ⟨literal, rest, rfl, isLiteral, rfl⟩
    refine ⟨(literal.toList, rest.toList), split?_eq_some_iff_isLiteral.mpr ⟨isLiteral, String.toList_append⟩, ?_⟩
    rw [byteSize_eq_utf8ByteSize, String.ofList_toList]

theorem IsLiteral.two_le {literal : String} (isLiteral : IsLiteral literal.toList) : 2 ≤ literal.utf8ByteSize := by
  obtain ⟨quote, inner, -, -, split⟩ := isLiteral
  have long := length_le_byteSize literal.toList
  rw [byteSize_eq_utf8ByteSize, String.ofList_toList, split] at long
  simp only [List.length_cons, List.length_append, List.length_nil] at long
  omega

/-- What the scan says of a literal at the front holds whatever stands behind it. -/
theorem IsLiteral.scan?_append {literal : String} (isLiteral : IsLiteral literal.toList) (other : String) :
    scan? (literal ++ other) = some literal.utf8ByteSize :=
  scan?_eq_some_iff.mpr ⟨literal, other, rfl, isLiteral, rfl⟩

/-- The scan by bytes finds a literal exactly where a quote opens the text and a later one, which is not escaped, can
close it. It gives the size up to the first such quote. This is a place between two characters, and what stands behind
it does not matter. -/
theorem scan?_reads_literal (text : String) :
    ((scan? text).isSome = true ↔ Closable text.toList) ∧
    ∀ n, (scan? text = some n ↔
        ∃ literal rest : String, text = literal ++ rest ∧ IsLiteral literal.toList ∧ literal.utf8ByteSize = n) ∧
      (scan? text = some n → 2 ≤ n ∧ String.Pos.Raw.IsValid text ⟨n⟩ ∧
        ∀ literal rest : String, text = literal ++ rest → literal.utf8ByteSize = n →
          scan? literal = some n ∧ ∀ other : String, scan? (literal ++ other) = some n) := by
  refine ⟨isSome_scan?_iff, fun n => ⟨scan?_eq_some_iff, fun found => ?_⟩⟩
  obtain ⟨literal, rest, rfl, isLiteral, rfl⟩ := scan?_eq_some_iff.mp found
  refine ⟨isLiteral.two_le, String.Pos.Raw.isValid_iff_exists_append.mpr ⟨literal, rest, rfl, rfl⟩, ?_⟩
  intro front back split size
  obtain rfl : literal = front := by
    have same : literal.toList ++ rest.toList = front.toList ++ back.toList := by
      rw [← String.toList_append, split, String.toList_append]
    refine String.toList_inj.mp (append_inj_of_byteSize same ?_).1
    rw [byteSize_eq_utf8ByteSize, byteSize_eq_utf8ByteSize, String.ofList_toList, String.ofList_toList, size]
  have alone := isLiteral.scan?_append ""
  rw [String.append_empty] at alone
  exact ⟨alone, isLiteral.scan?_append⟩

-- The bytes of `'\é'x`: one byte of the long character goes with the backslash, and the other one closes nothing.
example : scanBytes? [0x27, 0x5C, 0xC3, 0xA9, 0x27, 0x78] = some 5 := by decide

end Quoted

namespace Script

theorem readQuoted_textLiteral {s : List Char} (other : ¬Verbatim (Text.trim s)) :
    readQuoted (textLiteral s) = .text (String.ofList (Text.trim s)) := by
  rw [textLiteral_of_not_verbatim other]
  exact readQuoted_encode (Text.trim_trim s) other

/-- A text in a script is one operand of it, which prints as it stands there. In quotes it is read as itself. -/
theorem readValue_textLiteral_of_ends (s : List Char) {rest : List Char} (ends : EndsValue rest) :
    ∃ v, readValue (textLiteral s ++ rest) = .ok (v, rest) ∧ v.chars = textLiteral s ∧
      (¬Verbatim (Text.trim s) → v = .text (String.ofList (Text.trim s))) := by
  by_cases verbatim : Verbatim (Text.trim s)
  · obtain ⟨v, spells⟩ := exists_spellsValue (verbatim_textLiteral s)
    exact ⟨v, readValue_reads.complete spells ends, spells.chars_eq, fun other => absurd verbatim other⟩
  · have whole : Quoted.isWhole (textLiteral s) = true := by
      rw [textLiteral_of_not_verbatim verbatim]
      exact Quoted.isWhole_encode _
    exact ⟨_, readValue_quoted whole rest, chars_readQuoted whole, readQuoted_textLiteral⟩

/-- No text says more in a script than one operand: in front of a comma, a closing parenthesis or the end of the
script it is read off whole, prints as before, and its literal is its own. A text that has to be quoted comes back
unchanged. -/
theorem readValue_textLiteral (t : String) (rest : List Char) (ends : rest.head? ∈ [none, some ',', some ')']) :
    (∃ v, readValue (textLiteral t.toList ++ rest) = .ok (v, rest) ∧ v.chars = textLiteral t.toList ∧
      (Text.trim t.toList = t.toList → isNumeric t.toList = false → Symbol.ofChars? t.toList = none →
        Quoted.isWhole t.toList = false → v = .text t)) ∧
    textLiteral (textLiteral t.toList) = textLiteral t.toList := by
  have ends : EndsValue rest := by
    intro c first
    rw [first] at ends
    simp only [List.mem_cons, List.not_mem_nil, or_false, Option.some.injEq, reduceCtorEq, false_or] at ends
    rcases ends with rfl | rfl <;> rfl
  obtain ⟨v, read, chars, own⟩ := readValue_textLiteral_of_ends t.toList ends
  refine ⟨⟨v, read, chars, fun trimmed notNumeric notSymbol notQuoted => ?_⟩, (verbatim_textLiteral _).textLiteral⟩
  have other : ¬Verbatim t.toList := by
    rw [← verbatim_iff, notNumeric, notSymbol, notQuoted]
    decide
  rw [trimmed, String.ofList_toList] at own
  exact own other

/-- Quotes, backslashes, commas and the mark of a section in a text stay in its quotes. -/
theorem readValue_textLiteral_guarded :
    ")|\x7d".toList.head? ∈ [none, some ',', some ')'] ∧
      readValue (textLiteral "\",1)|L|\\".toList ++ ")|\x7d".toList) = .ok (.text "\",1)|L|\\", ")|\x7d".toList) := by
  have ends : ")|\x7d".toList.head? ∈ [none, some ',', some ')'] := by decide
  obtain ⟨⟨v, read, -, own⟩, -⟩ := readValue_textLiteral "\",1)|L|\\" ")|\x7d".toList ends
  rw [own (by decide) (by decide) (by decide) (by decide)] at read
  exact ⟨ends, read⟩

end Script

end RobotScript
