import RobotScript.Proofs.Script.ByteReader
import RobotScript.Proofs.Script.Reading

namespace RobotScript.Script

open ByteReader (Outcome Reading)

/-- A place in a text that is not inside a character, with all from there on. -/
def At (text : String) (i : Nat) (s : List Char) : Prop := ∃ front, text.toList = front ++ s ∧ i = Text.byteSize front

namespace At

variable {text : String} {i : Nat} {s t : List Char}

theorem start (text : String) : At text 0 text.toList := ⟨[], rfl, rfl⟩

theorem append (place : At text i (t ++ s)) : At text (i + Text.byteSize t) s := by
  obtain ⟨front, whole, rfl⟩ := place
  exact ⟨front ++ t, by rw [whole, List.append_assoc], (byteSize_append front t).symm⟩

theorem literal {word : String} (place : At text i (word.toList ++ s)) : At text (i + word.utf8ByteSize) s := by
  have size : Text.byteSize word.toList = word.utf8ByteSize := by
    rw [byteSize_eq_utf8ByteSize, String.ofList_toList]
  exact size ▸ place.append

theorem next {c : Char} (ascii : c.toNat < 0x80) (place : At text i (c :: s)) : At text (i + 1) s := by
  have one : Text.byteSize [c] = 1 := by
    rw [← length_units, units_cons_ascii ascii]
    rfl
  exact one ▸ @append _ _ _ [c] place

theorem isValid (place : At text i s) : String.Pos.Raw.IsValid text ⟨i⟩ := by
  obtain ⟨front, whole, rfl⟩ := place
  refine String.Pos.Raw.isValid_iff_exists_append.mpr ⟨String.ofList front, String.ofList s, ?_, ?_⟩
  · rw [← String.ofList_append, ← whole, String.ofList_toList]
  · rw [byteSize_eq_utf8ByteSize]
    rfl

theorem add_byteSize (place : At text i s) : i + Text.byteSize s = text.utf8ByteSize := by
  obtain ⟨front, whole, rfl⟩ := place
  rw [← byteSize_append, ← whole, byteSize_eq_utf8ByteSize, String.ofList_toList]

/-- As many turns as there are bytes are enough to pass every character. -/
theorem length_lt_turns (place : At text i s) : s.length < ByteReader.turns text := by
  have := length_le_byteSize s
  have := place.add_byteSize
  rw [ByteReader.turns]
  omega

theorem size_le_iff (place : At text i s) : text.utf8ByteSize ≤ i ↔ s.isEmpty = true := by
  have whole := place.add_byteSize
  cases s with
  | nil => simpa [Text.byteSize] using whole.ge
  | cons c s =>
    have := c.utf8Size_pos
    simp only [Text.byteSize, List.isEmpty_cons, Bool.false_eq_true, iff_false] at whole ⊢
    omega

theorem extract_middle (front t s : List Char) :
    (String.ofList (front ++ (t ++ s))).toByteArray.extract (Text.byteSize front)
      (Text.byteSize front + Text.byteSize t) = (String.ofList t).toByteArray := by
  have size (u : List Char) : Text.byteSize u = (String.ofList u).toByteArray.size := by
    rw [byteSize_eq_utf8ByteSize, String.size_toByteArray]
  rw [← byteSize_append, ← List.append_assoc, String.ofList_append, String.toByteArray_append, size, size,
    ByteArray.extract_append_size_left, String.ofList_append, String.toByteArray_append]
  exact ByteArray.extract_append_eq_right rfl ByteArray.size_append

theorem slice_eq (place : At text i (t ++ s)) : ByteReader.slice text i (i + Text.byteSize t) = pure t := by
  have inside : String.Pos.Raw.IsValid text ⟨i⟩ ∧ String.Pos.Raw.IsValid text ⟨i + Text.byteSize t⟩ ∧
      i ≤ i + Text.byteSize t := ⟨place.isValid, place.append.isValid, Nat.le_add_right _ _⟩
  rw [ByteReader.slice, dif_pos inside]
  obtain ⟨front, whole, rfl⟩ := place
  have part : text.extract ⟨⟨Text.byteSize front⟩, inside.1⟩ ⟨⟨Text.byteSize front + Text.byteSize t⟩, inside.2.1⟩ =
      String.ofList t := by
    rw [← String.toByteArray_inj, String.toByteArray_extract, ← extract_middle front t s, ← whole,
      String.ofList_toList]
  rw [part, String.toList_ofList]

-- Half a character is no slice.
example : ByteReader.slice "é" 0 1 = ByteReader.stuck := dif_neg (by decide)

theorem rest_eq (place : At text i s) : ByteReader.rest text i = pure s := by
  have whole : At text i (s ++ []) := by rwa [List.append_nil]
  rw [ByteReader.rest, ← place.add_byteSize, whole.slice_eq]

theorem bytes_eq (text : String) : ByteReader.bytes text = units text.toList := by
  rw [ByteReader.bytes, units, ← toUTF8_ofList, String.ofList_toList]

theorem drop_bytes (place : At text i s) : (ByteReader.bytes text).drop i = units s := by
  obtain ⟨front, whole, rfl⟩ := place
  rw [bytes_eq, whole, units_append, ← length_units, List.drop_left]

theorem current_eq (place : At text i s) : ByteReader.current text i = (units s).head? := by
  rw [← place.drop_bytes, List.head?_drop]
  rfl

theorem skipWhile_eq (place : At text i s) {p : Char → Bool} {all : Bool}
    (alike : ∀ c : Char, 0x80 ≤ c.toNat → p c = all) :
    ByteReader.skipWhile text p i = i + Text.byteSize (s.takeWhile p) := by
  rw [ByteReader.skipWhile, place.drop_bytes, takeWhile_units alike, length_units]

theorem startsWith_eq (place : At text i s) (literal : String) :
    ByteReader.startsWith text literal i = pure (Text.strip? literal s).isSome := by
  rw [ByteReader.startsWith, place.rest_eq, pure_bind]

/-- A byte that is a character of its own tells how the text goes on. -/
theorem current_eq_some_iff (place : At text i s) {c : Char} (ascii : c.toNat < 0x80) :
    ByteReader.current text i = some c ↔ ∃ t, s = c :: t := by
  rw [place.current_eq, head?_units ascii]

theorem current_pair_iff (place : At text i s) {c d : Char} (ascii : c.toNat < 0x80) (ascii' : d.toNat < 0x80) :
    ByteReader.current text i = some c ∧ ByteReader.current text (i + 1) = some d ↔ ∃ t, s = c :: d :: t := by
  constructor
  · rintro ⟨first, second⟩
    obtain ⟨t, rfl⟩ := (place.current_eq_some_iff ascii).mp first
    obtain ⟨u, rfl⟩ := ((place.next ascii).current_eq_some_iff ascii').mp second
    exact ⟨u, rfl⟩
  · rintro ⟨t, rfl⟩
    exact ⟨(place.current_eq_some_iff ascii).mpr ⟨_, rfl⟩, ((place.next ascii).current_eq_some_iff ascii').mpr ⟨_, rfl⟩⟩

/-- A function of characters that has nothing for the long ones cannot tell a byte from a character. -/
theorem current_bind (place : At text i s) {β : Type} {f : Char → Option β}
    (short : ∀ c : Char, 0x80 ≤ c.toNat → f c = none) : (ByteReader.current text i).bind f = s.head?.bind f := by
  rw [place.current_eq]
  cases s with
  | nil => rfl
  | cons c s =>
    rcases Nat.lt_or_ge c.toNat 0x80 with ascii | long
    · rw [units_cons_ascii ascii]
      rfl
    · obtain ⟨d, ds, split, high⟩ := units_cons_long long
      rw [split]
      exact (short d (high d List.mem_cons_self)).trans (short c long).symm

theorem current_filter (place : At text i s) {p : Char → Bool} (short : ∀ c : Char, 0x80 ≤ c.toNat → p c = false) :
    (ByteReader.current text i).filter p = s.head?.filter p := by
  have same (c? : Option Char) : c?.filter p = c?.bind fun c => if p c then some c else none := by cases c? <;> rfl
  rw [same, same]
  exact place.current_bind fun c long => by simp [short c long]

end At

/-- Reading by bytes comes to what reading by characters does: to values that are the same, or to one fault at one
place. -/
inductive Tracks (text : String) {α β : Type} (same : α → β → Prop) : Outcome α → Except Fault β → Prop
  | ok {a : α} {b : β} : same a b → Tracks text same (pure a) (.ok b)
  | fault {i : Nat} {s : List Char} (cause : Cause) : At text i s →
      Tracks text same (ByteReader.refuse cause i) (.error ⟨s, cause⟩)

/-- The same value, and the same place behind it. -/
def Beside (text : String) {α : Type} (byBytes : α × Nat) (byChars : α × List Char) : Prop :=
  byBytes.1 = byChars.1 ∧ At text byBytes.2 byChars.2

def Follows (text : String) {α : Type} (byBytes : Reading α) (byChars : Reader α) : Prop :=
  ∀ {i : Nat} {s : List Char}, At text i s → Tracks text (Beside text) (byBytes i) (byChars s)

section Steps

variable {text : String} {α β γ δ : Type} {i : Nat} {s : List Char}

theorem Tracks.bind {same : α → β → Prop} {same' : γ → δ → Prop} {x : Outcome α} {y : Except Fault β}
    {f : α → Outcome γ} {g : β → Except Fault δ} (first : Tracks text same x y)
    (next : ∀ a b, same a b → y = .ok b → Tracks text same' (f a) (g b)) : Tracks text same' (x >>= f) (y >>= g) := by
  cases first with
  | ok both => exact next _ _ both rfl
  | fault cause place => exact .fault cause place

theorem Tracks.done (value : α) (place : At text i s) :
    Tracks text (Beside text) (pure (value, i)) (.ok (value, s)) := .ok ⟨rfl, place⟩

theorem Follows.bind {byBytes : Reading α} {byChars : Reader α} {same : γ → δ → Prop} {f : α × Nat → Outcome γ}
    {g : α × List Char → Except Fault δ} (follows : Follows text byBytes byChars) (place : At text i s)
    (next : ∀ a j t, At text j t → byChars s = .ok (a, t) → Tracks text same (f (a, j)) (g (a, t))) :
    Tracks text same (byBytes i >>= f) (byChars s >>= g) := by
  refine (follows place).bind ?_
  rintro ⟨a, j⟩ ⟨_, t⟩ ⟨rfl, behind⟩ run
  exact next a j t behind run

theorem At.expect_eq {literal : String} (place : At text i (literal.toList ++ s)) :
    ByteReader.expect text literal i = pure (i + literal.utf8ByteSize) := by
  rw [ByteReader.expect, place.startsWith_eq, pure_bind, Text.strip?_append]
  rfl

theorem expect_tracks (literal : String) (place : At text i s) :
    Tracks text (At text) (ByteReader.expect text literal i) (expect literal s) := by
  rw [ByteReader.expect, place.startsWith_eq, pure_bind, expect]
  cases found : Text.strip? literal s with
  | none => exact .fault _ place
  | some rest =>
    rw [Text.strip?_eq_some_iff.mp found] at place
    exact .ok place.literal

/-- A literal without its quotes is a slice of it. -/
theorem slice_content {quote : Char} (isQuote : Quoted.isQuote quote = true) (inner : List Char) :
    ByteReader.slice (String.ofList (quote :: (inner ++ [quote]))) 1
      (Text.byteSize (quote :: (inner ++ [quote])) - 1) = pure inner := by
  obtain ⟨ascii, one⟩ := Quoted.ascii_of_isQuote isQuote
  have start := At.start (String.ofList (quote :: (inner ++ [quote])))
  rw [String.toList_ofList] at start
  have size : Text.byteSize (quote :: (inner ++ [quote])) - 1 = 0 + 1 + Text.byteSize inner := by
    simp only [Text.byteSize, byteSize_append, one]
    omega
  rw [size]
  exact (start.next ascii).slice_eq

theorem readQuoted_tracks {quote : Char} {t : List Char} (isQuote : Quoted.isQuote quote = true)
    (place : At text i (quote :: t)) :
    Tracks text (Beside text) (ByteReader.readQuoted text quote i)
      (match Quoted.split? (quote :: t) with
        | some (literal, rest) => .ok (readQuoted literal, rest)
        | none => .error ⟨quote :: t, .unclosedQuote⟩) := by
  rw [ByteReader.readQuoted, place.rest_eq, pure_bind, Quoted.scan?_ofList]
  cases found : Quoted.split? (quote :: t) with
  | none => exact .fault _ place
  | some parts =>
    obtain ⟨literal, rest⟩ := parts
    obtain ⟨⟨own, behind, -, closes, rfl⟩, split⟩ := Quoted.split?_eq_some_iff.mp found
    obtain ⟨rfl, rfl⟩ := List.cons.inj split
    obtain ⟨inner, rfl⟩ := closes.ends
    have content : ((quote :: (inner ++ [quote])).drop 1).dropLast = inner := by simp
    have first : (quote :: (inner ++ [quote])).head? = some quote := rfl
    have behind := At.append (t := quote :: (inner ++ [quote])) place
    dsimp only [Option.map_some, readQuoted]
    rw [At.slice_eq (t := quote :: (inner ++ [quote])) place, pure_bind, content, first]
    by_cases double : quote = '"'
    · rw [if_pos double, slice_content isQuote, pure_bind]
      by_cases printed : textLiteral (Quoted.decode inner) = quote :: (inner ++ [quote])
      · rw [if_pos printed, if_pos ⟨congrArg some double, printed⟩]
        exact .done _ behind
      · rw [if_neg printed, if_neg fun both => printed both.2]
        exact .done _ behind
    · rw [if_neg double, if_neg fun both => double (Option.some.inj both.1)]
      exact .done _ behind

theorem isQuote_long {c : Char} (long : 0x80 ≤ c.toNat) : Quoted.isQuote c = false := by
  refine Bool.eq_false_iff.mpr fun quote => ?_
  have := (Quoted.ascii_of_isQuote quote).1
  omega

theorem isCommandChar_long {c : Char} (long : 0x80 ≤ c.toNat) : isCommandChar c = false := by
  refine Bool.eq_false_iff.mpr fun inWord => ?_
  have := isCommandChar_bounds inWord
  omega

theorem isDigit_long {c : Char} (long : 0x80 ≤ c.toNat) : isDigit c = false := by
  refine Bool.eq_false_iff.mpr fun digit => ?_
  have := isCommandChar_long long
  simp [isCommandChar, digit] at this

theorem isDelimiter_long {c : Char} (long : 0x80 ≤ c.toNat) : (!isDelimiter c) = true := by
  simp only [isDelimiter, List.mem_cons, List.not_mem_nil, or_false, Bool.not_eq_true', decide_eq_false_iff_not]
  rintro (rfl | rfl | rfl | rfl | rfl | rfl) <;> exact absurd long (by decide)

theorem readBare_tracks (place : At text i s) :
    Tracks text (Beside text) (ByteReader.readBare text i)
      (match Symbol.ofChars? (s.takeWhile (!isDelimiter ·)) with
        | some name => .ok (.symbol name, s.dropWhile (!isDelimiter ·))
        | none =>
          if isNumeric (s.takeWhile (!isDelimiter ·)) then
            .ok (readNumber (s.takeWhile (!isDelimiter ·)), s.dropWhile (!isDelimiter ·))
          else .error ⟨s, .noValue (s.takeWhile (!isDelimiter ·))⟩) := by
  have whole : At text i (s.takeWhile (!isDelimiter ·) ++ s.dropWhile (!isDelimiter ·)) := by
    rwa [List.takeWhile_append_dropWhile]
  simp only [ByteReader.readBare, place.skipWhile_eq fun c long => isDelimiter_long long]
  rw [whole.slice_eq, pure_bind]
  cases Symbol.ofChars? (s.takeWhile (!isDelimiter ·)) with
  | some name => exact .done _ whole.append
  | none =>
    dsimp only
    split
    · exact .done _ whole.append
    · exact .fault _ place

theorem readValue_follows : Follows text (ByteReader.readValue text) readValue := by
  intro i s place
  rw [ByteReader.readValue, place.current_filter fun c long => isQuote_long long, readValue]
  cases s with
  | nil => exact readBare_tracks place
  | cons c s =>
    have first : ((c :: s).head?.map Quoted.isQuote).getD false = Quoted.isQuote c := rfl
    rw [first, List.head?_cons, Option.filter_some]
    by_cases quote : Quoted.isQuote c = true
    · rw [if_pos quote, if_pos quote]
      exact readQuoted_tracks quote place
    · rw [if_neg quote, if_neg quote]
      exact readBare_tracks place

/-- The first operator that stands at the front is found with what follows it. -/
theorem findSome?_strip? (s : List Char) (ops : List Comparison) :
    (ops.findSome? fun op => (Text.strip? op.wire s).map fun rest => (op, rest)) =
      (ops.find? fun op => (Text.strip? op.wire s).isSome).bind fun op =>
        (Text.strip? op.wire s).map fun rest => (op, rest) := by
  induction ops with
  | nil => rfl
  | cons op ops ih =>
    rw [List.findSome?_cons, List.find?_cons, ih]
    cases found : Text.strip? op.wire s with
    | none => rfl
    | some rest => simp [found]

theorem readComparison_follows : Follows text (ByteReader.readComparison text) readComparison := by
  intro i s place
  have tested : (fun op : Comparison => ByteReader.startsWith text op.wire i) =
      fun op => pure (Text.strip? op.wire s).isSome := funext fun op => place.startsWith_eq op.wire
  rw [ByteReader.readComparison, tested, List.findM?_pure, pure_bind, readComparison, findSome?_strip?]
  cases found : operators.find? fun op => (Text.strip? op.wire s).isSome with
  | none => exact .fault _ place
  | some op =>
    have present : (Text.strip? op.wire s).isSome = true := by simpa using List.find?_some found
    obtain ⟨rest, stripped⟩ := Option.isSome_iff_exists.mp present
    rw [Text.strip?_eq_some_iff.mp stripped] at place
    rw [Option.bind_some, stripped]
    exact .done op place.literal

theorem readCondition_follows : Follows text (ByteReader.readCondition text) readCondition := by
  intro i s place
  refine (expect_tracks "O" place).bind fun i s place _ => ?_
  refine readComparison_follows.bind place fun op i s place _ => ?_
  refine (expect_tracks "," place).bind fun i s place _ => ?_
  refine readValue_follows.bind place fun left i s place _ => ?_
  refine (expect_tracks "," place).bind fun i s place _ => ?_
  refine readValue_follows.bind place fun right i s place _ => ?_
  exact .done _ place

/-- By bytes a minus is passed over where it is by characters. -/
theorem exists_sign (place : At text i s) : ∃ sign t, s = sign ++ t ∧
    (if ByteReader.current text i = some '-' then i + 1 else i) = i + Text.byteSize sign ∧
    readInt s = match readInt32? (sign ++ t.takeWhile isDigit) with
      | some n => .ok (n, t.dropWhile isDigit)
      | none => .error ⟨s, .noInteger⟩ := by
  by_cases minus : ByteReader.current text i = some '-'
  · obtain ⟨t, rfl⟩ := (place.current_eq_some_iff (by decide)).mp minus
    exact ⟨['-'], t, rfl, if_pos minus, rfl⟩
  · refine ⟨[], s, rfl, if_neg minus, readInt.eq_2 s fun t same => ?_⟩
    exact minus ((place.current_eq_some_iff (by decide)).mpr ⟨t, same⟩)

theorem readInt_follows : Follows text (ByteReader.readInt text) readInt := by
  intro i s place
  obtain ⟨sign, t, rfl, start, byChars⟩ := exists_sign place
  have whole : At text i ((sign ++ t.takeWhile isDigit) ++ t.dropWhile isDigit) := by
    rwa [List.append_assoc, List.takeWhile_append_dropWhile]
  simp only [ByteReader.readInt, start, place.append.skipWhile_eq fun c long => isDigit_long long, Nat.add_assoc,
    ← byteSize_append]
  rw [whole.slice_eq, pure_bind, byChars]
  cases readInt32? (sign ++ t.takeWhile isDigit) with
  | some n => exact .done n whole.append
  | none => exact .fault _ place

theorem readWord_follows : Follows text (ByteReader.readWord text) readWord := by
  intro i s place
  have whole : At text i (s.takeWhile isCommandChar ++ s.dropWhile isCommandChar) := by
    rwa [List.takeWhile_append_dropWhile]
  simp only [ByteReader.readWord, place.skipWhile_eq fun c long => isCommandChar_long long]
  rw [whole.slice_eq, pure_bind, readWord]
  split
  · rename_i empty
    rw [List.isEmpty_iff.mp empty]
    exact .fault _ place
  · split
    · exact .done _ whole.append
    · cases delay? (s.takeWhile isCommandChar) with
      | none => exact .done _ whole.append
      | some ms => exact .done _ whole.append

theorem ofCode?_long {c : Char} (long : 0x80 ≤ c.toNat) : SlotType.ofCode? c = none := by
  cases found : SlotType.ofCode? c with
  | none => rfl
  | some type =>
    have code : type.code = c := by simpa [SlotType.ofCode?] using List.find?_some found
    subst code
    exact absurd long (by cases type <;> decide)

theorem readSlotType_follows : Follows text (ByteReader.readSlotType text) readSlotType := by
  intro i s place
  rw [ByteReader.readSlotType, place.current_bind fun c long => ofCode?_long long]
  cases s with
  | nil => exact .fault _ place
  | cons c s =>
    rw [readSlotType, List.head?_cons, Option.bind_some]
    cases found : SlotType.ofCode? c with
    | none => exact .fault _ place
    | some type =>
      refine .done type (place.next ?_)
      refine Nat.lt_of_not_le fun long => ?_
      rw [ofCode?_long long] at found
      cases found

theorem readSlotIndex_follows (type : SlotType) :
    Follows text (ByteReader.readSlotIndex text type) (readSlotIndex type) := by
  intro i s place
  rw [ByteReader.readSlotIndex, place.current_filter fun c long => isDigit_long long]
  cases s with
  | nil => exact .fault _ place
  | cons c s =>
    rw [readSlotIndex, List.head?_cons, Option.filter_some]
    by_cases digit : isDigit c = true
    · rw [if_pos digit, if_pos digit, Option.bind_some]
      cases Slot.ofIndex? type (ofDigits [c]) with
      | none => exact .fault _ place
      | some slot =>
        refine .done slot (place.next (Nat.lt_of_not_le fun long => ?_))
        rw [isDigit_long long] at digit
        cases digit
    · rw [if_neg digit, if_neg digit]
      exact .fault _ place

theorem readAssignOp_follows : Follows text (ByteReader.readAssignOp text) readAssignOp := by
  intro i s place
  rw [ByteReader.readAssignOp]
  split
  · rename_i set
    obtain ⟨t, rfl⟩ := (place.current_eq_some_iff (by decide)).mp set
    exact .done _ (place.next (by decide))
  · rename_i add
    obtain ⟨t, rfl⟩ := (place.current_eq_some_iff (by decide)).mp add
    exact .done _ (place.next (by decide))
  · rename_i notSet notAdd
    rw [readAssignOp]
    · exact .fault _ place
    · exact fun t same => notSet ((place.current_eq_some_iff (by decide)).mpr ⟨t, same⟩)
    · exact fun t same => notAdd ((place.current_eq_some_iff (by decide)).mpr ⟨t, same⟩)

theorem readAssign_follows : Follows text (ByteReader.readAssign text) readAssign := by
  intro i s place
  refine (expect_tracks "G(" place).bind fun i s place _ => ?_
  refine readSlotType_follows.bind place fun type i s place _ => ?_
  refine (expect_tracks "," place).bind fun i s place _ => ?_
  refine Follows.bind (readSlotIndex_follows type) place fun target i s place _ => ?_
  refine (expect_tracks "," place).bind fun i s place _ => ?_
  refine readAssignOp_follows.bind place fun op i s place _ => ?_
  refine (expect_tracks "," place).bind fun i s place _ => ?_
  refine readValue_follows.bind place fun value i s place _ => ?_
  refine (expect_tracks ")" place).bind fun i s place _ => ?_
  exact .done _ place

end Steps

end RobotScript.Script
