import RobotScript.Proofs.Description.Whitelist
import RobotScript.Proofs.Script.Rereading

namespace RobotScript

/-- The integer that is printed as this text. -/
def canonicalInt? (s : List Char) : Option Int64 := (readInt64? s).filter fun n => intDigits n.toInt == s

theorem canonicalInt?_eq_some_iff {s : List Char} {n : Int64} :
    canonicalInt? s = some n ↔ intDigits n.toInt = s := by
  rw [canonicalInt?, Option.filter_eq_some_iff, beq_iff_eq]
  constructor
  · exact fun found => found.2
  · rintro rfl
    exact ⟨readInt64?_intDigits n, rfl⟩

/-- The finite float that is printed as this text. -/
def canonicalFloat? (s : List Char) : Option Double :=
  (Floating.read? .binary64 s).filter fun x => x.isFinite && x.plain == s

theorem canonicalFloat?_eq_some_iff {s : List Char} {x : Double} :
    canonicalFloat? s = some x ↔ x.isFinite = true ∧ x.plain = s := by
  rw [canonicalFloat?, Option.filter_eq_some_iff, Bool.and_eq_true, beq_iff_eq]
  constructor
  · exact fun found => found.2
  · rintro ⟨finite, rfl⟩
    cases x with
    | finite x => exact ⟨Floating.read?_plain (by decide) (by decide) x, finite, rfl⟩
    | nan => cases finite
    | infinite negative => cases finite

/-- A value as it is after printing and reading. Numbers and quoted texts lose the kind that their
spelling does not show, unless the spelling is not the one that the other kind prints. -/
def Value.normal : Value → Value
  | .integer n => .integer n
  | .bool b => .integer (if b then 1 else 0)
  | .symbol name => .symbol name
  | .float x => match canonicalInt? x.plain with
    | some n => .integer n
    | none => .float x
  | .text s =>
    let content := Quoted.decode (s.toList.drop 1).dropLast
    if isNumeric s.toList then
      match canonicalInt? s.toList, canonicalFloat? s.toList with
      | some n, _ => .integer n
      | none, some x => .float x
      | none, none => .text s
    else if Quoted.isWhole s.toList ∧ s.toList.head? = some '"' ∧ textLiteral content = s.toList then
      .text (String.ofList content)
    else .text s

def Program.normal (p : Program) : Program := p.reread Value.normal

namespace Script

theorem readNumber_eq (s : List Char) :
    readNumber s = match canonicalInt? s, canonicalFloat? s with
      | some n, _ => .integer n
      | none, some x => .float x
      | none, none => .text (String.ofList s) := by
  unfold readNumber
  rw [← canonicalInt?, ← canonicalFloat?]
  cases canonicalInt? s with
  | some n => rfl
  | none => cases canonicalFloat? s <;> rfl

theorem readNumber_intDigits (n : Int64) : readNumber (intDigits n.toInt) = .integer n := by
  rw [readNumber_eq, canonicalInt?_eq_some_iff.mpr rfl]

theorem readQuoted_encode {s : List Char} (trimmed : Text.trim s = s) (other : ¬Verbatim s) :
    readQuoted ('"' :: Quoted.encode s ++ ['"']) = .text (String.ofList s) := by
  have literal := textLiteral_of_not_verbatim (trimmed.symm ▸ other)
  rw [trimmed] at literal
  have content : Quoted.decode (('"' :: Quoted.encode s ++ ['"']).drop 1).dropLast = s := by
    simp [Quoted.decode_encode]
  simp only [readQuoted, content]
  rw [if_pos ⟨rfl, literal⟩]

/-- A text that is no symbol, with no blank around it, is read as its normal form. -/
theorem spellsValue_normal_text {s : String} (trimmed : Text.trim s.toList = s.toList)
    (noSymbol : Symbol.ofChars? s.toList = none) :
    SpellsValue (Value.text s).chars (Value.text s).normal := by
  simp only [Value.chars, Value.normal]
  by_cases numeric : isNumeric s.toList = true
  · have spelled := SpellsValue.number numeric
    rw [readNumber_eq, String.ofList_toList] at spelled
    rw [(Verbatim.number numeric).textLiteral, if_pos numeric]
    exact spelled
  · rw [if_neg numeric]
    by_cases whole : Quoted.isWhole s.toList = true
    · have spelled := SpellsValue.quoted whole
      rw [readQuoted, String.ofList_toList] at spelled
      rw [(Verbatim.quoted whole).textLiteral]
      simpa only [whole, true_and] using spelled
    · have other : ¬Verbatim s.toList := by
        intro verbatim
        simpa [numeric, whole, noSymbol] using verbatim_iff.mpr verbatim
      have spelled := SpellsValue.quoted (Quoted.isWhole_encode s.toList)
      rw [readQuoted_encode trimmed other, String.ofList_toList] at spelled
      rw [textLiteral_of_not_verbatim (trimmed.symm ▸ other), trimmed, if_neg (fun both => whole both.1)]
      exact spelled

/-- A clean value is read as its normal form. -/
theorem spellsValue_normal {v : Value} (clean : v.Clean) : SpellsValue v.chars v.normal := by
  cases v with
  | integer n =>
    have spelled := SpellsValue.number (isNumeric_intDigits n.toInt)
    rwa [readNumber_intDigits] at spelled
  | bool b =>
    have spelled := SpellsValue.number (isNumeric_intDigits (if b then 1 else 0 : Int64).toInt)
    rw [readNumber_intDigits] at spelled
    cases b <;> exact spelled
  | symbol name => exact .symbol name
  | float x =>
    have numeric : isNumeric x.plain = true := by
      cases x with
      | finite x => exact isNumeric_plain (x.shortest .up)
      | nan => cases clean
      | infinite negative => cases clean
    have spelled := SpellsValue.number numeric
    rw [readNumber_eq, canonicalFloat?_eq_some_iff.mpr ⟨clean, rfl⟩] at spelled
    simp only [Value.chars, Value.normal]
    cases found : canonicalInt? x.plain with
    | some n => simpa only [found] using spelled
    | none => simpa only [found] using spelled
  | text s => exact spellsValue_normal_text clean.1 clean.2.2.2

end Script

end RobotScript
