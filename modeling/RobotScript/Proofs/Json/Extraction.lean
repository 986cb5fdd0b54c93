import RobotScript.Proofs.Json.Reading

namespace RobotScript

open Text

namespace JsonText

section More

variable {s rest : List Char}

/-- A string is read up to its quote, whatever comes behind. -/
theorem readPieces_more {pieces : List JsonPiece} (read : readPieces s = some (pieces, rest)) (more : List Char) :
    readPieces (s ++ more) = some (pieces, rest ++ more) := by
  fun_induction readPieces s generalizing pieces with
  | case1 => cases read
  | case2 s =>
    cases read
    rfl
  | case3 a b c d s ih =>
    obtain ⟨i, first, read⟩ := Option.bind_eq_some_iff.mp read
    obtain ⟨j, second, read⟩ := Option.bind_eq_some_iff.mp read
    obtain ⟨k, third, read⟩ := Option.bind_eq_some_iff.mp read
    obtain ⟨l, fourth, read⟩ := Option.bind_eq_some_iff.mp read
    obtain ⟨⟨tail, after⟩, tailRead, same⟩ := Option.bind_eq_some_iff.mp read
    cases same
    simp only [List.cons_append, readPieces, first, second, third, fourth, ih tailRead, Option.bind_eq_bind,
      Option.bind_some]
    rfl
  | case4 e s _ ih =>
    obtain ⟨c, short, read⟩ := Option.bind_eq_some_iff.mp read
    obtain ⟨⟨tail, after⟩, tailRead, same⟩ := Option.bind_eq_some_iff.mp read
    cases same
    rw [List.cons_append, List.cons_append, readPieces_escape short, ih tailRead]
    rfl
  | case5 => cases read
  | case6 c s notQuote _ _ plain ih =>
    obtain ⟨⟨tail, after⟩, tailRead, same⟩ := Option.bind_eq_some_iff.mp read
    cases same
    simp only [Bool.or_eq_true, beq_iff_eq, decide_eq_true_eq, not_or] at plain
    rw [List.cons_append, readPieces_plain notQuote plain.1 plain.2, ih tailRead]
    rfl

theorem readRun_more {run : List Char} (read : readRun s = some (run, rest)) (inside : rest ≠ []) (more : List Char) :
    readRun (s ++ more) = some (run, rest ++ more) := by
  obtain ⟨rfl, nonempty, digits, stop⟩ := readRun_eq_some_iff.mp read
  exact readRun_eq_some_iff.mpr ⟨List.append_assoc .., nonempty, digits, stops_append inside stop more⟩

theorem readFraction_more {fraction : List Char} (read : readFraction s = some (fraction, rest)) (inside : rest ≠ [])
    (more : List Char) : readFraction (s ++ more) = some (fraction, rest ++ more) := by
  rcases readFraction_eq_some_iff.mp read with ⟨rfl, rfl, stop⟩ | ⟨t, rfl, digits⟩
  · exact readFraction_eq_some_iff.mpr (.inl ⟨rfl, rfl, stops_append inside stop more⟩)
  · exact readFraction_eq_some_iff.mpr (.inr ⟨t ++ more, rfl, readRun_more digits inside more⟩)

theorem readExponent_more {exponent : Option (Option Char × List Char)} (read : readExponent s = some (exponent, rest))
    (inside : rest ≠ []) (more : List Char) : readExponent (s ++ more) = some (exponent, rest ++ more) := by
  rcases readExponent_eq_some_iff.mp read with
    ⟨rfl, rfl, stop⟩ | ⟨mark, sign, run, t, marked, isSign, rfl, rfl, digits⟩
  · exact readExponent_eq_some_iff.mpr (.inl ⟨rfl, rfl, stops_append inside stop more⟩)
  · exact readExponent_eq_some_iff.mpr
      (.inr ⟨mark, sign, run, t ++ more, marked, isSign, rfl, by simp, readRun_more digits inside more⟩)

/-- Only at the very end of a text could more text go on with a numeral. -/
theorem readNumeral_more {n : JsonNumeral} (read : readNumeral s = some (n, rest)) (inside : rest ≠ [])
    (more : List Char) : readNumeral (s ++ more) = some (n, rest ++ more) := by
  obtain ⟨t, u, v, rfl, whole, front, fraction, exponent⟩ := readNumeral_eq_some_iff.mp read
  have behindFraction : v ≠ [] := by
    rintro rfl
    exact inside (congrArg Prod.snd (Option.some.inj exponent)).symm
  have behindWhole : u ≠ [] := by
    rintro rfl
    exact behindFraction (congrArg Prod.snd (Option.some.inj fraction)).symm
  exact readNumeral_eq_some_iff.mpr ⟨t ++ more, u ++ more, v ++ more, List.append_assoc ..,
    readRun_more whole behindWhole more, front, readFraction_more fraction behindFraction more,
    readExponent_more exponent inside more⟩

theorem skip_more {t : List Char} (skipped : skip s = t) (inside : t ≠ []) (more : List Char) :
    skip (s ++ more) = t ++ more := by
  unfold skip at *
  rw [List.dropWhile_append, skipped, if_neg (by simpa using inside)]

theorem ne_nil_of_skip {c : Char} {t : List Char} (skipped : skip s = c :: t) : s ≠ [] := by
  rintro rfl
  cases skipped

theorem ne_nil_of_readValue {steps : Nat} {value : JsonText} (read : readValue steps s = some (value, rest)) :
    s ≠ [] := by
  rintro rfl
  cases steps <;> cases read

/-- A value that ends before its text does is read alike with more steps and with more text behind. -/
def Persists (steps : Nat) : Prop :=
  ∀ {s rest : List Char} {value : JsonText}, readValue steps s = some (value, rest) → rest ≠ [] →
    ∀ {larger : Nat}, steps ≤ larger → ∀ more, readValue larger (s ++ more) = some (value, rest ++ more)

variable {steps larger : Nat} (persists : ∀ n < steps, Persists n) (enough : steps ≤ larger)
include persists enough

/-- The end of an array stands behind each of its items, so these do not reach the end of the text. -/
theorem readItems_more {items : List JsonText} (read : readItems steps s = some (items, rest)) (more : List Char) :
    readItems larger (s ++ more) = some (items, rest ++ more) := by
  induction steps generalizing larger s items with
  | zero => cases read
  | succ steps ih =>
    obtain ⟨larger, rfl⟩ := Nat.exists_eq_succ_of_ne_zero (Nat.ne_zero_of_lt enough)
    have enough := Nat.le_of_succ_le_succ enough
    obtain ⟨item, after, itemRead, ending⟩ := readItems_succ_eq_some_iff.mp read
    have own (inside : after ≠ []) := persists steps (Nat.lt_succ_self _) itemRead inside enough more
    refine readItems_succ_eq_some_iff.mpr ⟨item, after ++ more, ?_⟩
    rcases ending with ⟨skipped, rfl⟩ | ⟨t, others, skipped, othersRead, rfl⟩
    · exact ⟨own (ne_nil_of_skip skipped), .inl ⟨skip_more skipped (by simp) more, rfl⟩⟩
    · obtain ⟨c, u, starts, -⟩ := readItems_cons othersRead
      have behind := ih (fun n less => persists n (by omega)) enough othersRead
      rw [← skip_more rfl (by simp [starts])] at behind
      exact ⟨own (ne_nil_of_skip skipped), .inr ⟨t ++ more, others, skip_more skipped (by simp) more, behind, rfl⟩⟩

theorem readFields_more {fields : List (List JsonPiece × JsonText)} (read : readFields steps s = some (fields, rest))
    (more : List Char) : readFields larger (s ++ more) = some (fields, rest ++ more) := by
  induction steps generalizing larger s fields with
  | zero => cases read
  | succ steps ih =>
    obtain ⟨larger, rfl⟩ := Nat.exists_eq_succ_of_ne_zero (Nat.ne_zero_of_lt enough)
    have enough := Nat.le_of_succ_le_succ enough
    obtain ⟨t, key, u, v, value, after, rfl, keyRead, colon, valueRead, ending⟩ := readFields_succ_eq_some_iff.mp read
    have own (inside : after ≠ []) := persists steps (Nat.lt_succ_self _) valueRead inside enough more
    rw [← skip_more rfl (ne_nil_of_readValue valueRead)] at own
    refine readFields_succ_eq_some_iff.mpr ⟨t ++ more, key, u ++ more, v ++ more, value, after ++ more, rfl,
      readPieces_more keyRead more, skip_more colon (by simp) more, ?_⟩
    rcases ending with ⟨skipped, rfl⟩ | ⟨w, others, skipped, othersRead, rfl⟩
    · exact ⟨own (ne_nil_of_skip skipped), .inl ⟨skip_more skipped (by simp) more, rfl⟩⟩
    · obtain ⟨x, starts⟩ := readFields_cons othersRead
      have behind := ih (fun n less => persists n (by omega)) enough othersRead
      rw [← skip_more rfl (by simp [starts])] at behind
      exact ⟨own (ne_nil_of_skip skipped), .inr ⟨w ++ more, others, skip_more skipped (by simp) more, behind, rfl⟩⟩

theorem readValue_array_more {value : JsonText} (read : readValue (steps + 1) ('[' :: s) = some (value, rest))
    (more : List Char) : readValue (larger + 1) ('[' :: s ++ more) = some (value, rest ++ more) := by
  rcases readValue_array_eq_some_iff.mp read with ⟨skipped, rfl⟩ | ⟨items, itemsRead, rfl⟩
  · exact readValue_array_eq_some_iff.mpr (.inl ⟨skip_more skipped (by simp) more, rfl⟩)
  · obtain ⟨c, t, starts, -⟩ := readItems_cons itemsRead
    have behind := readItems_more persists enough itemsRead more
    rw [← skip_more rfl (by simp [starts])] at behind
    exact readValue_array_eq_some_iff.mpr (.inr ⟨items, behind, rfl⟩)

theorem readValue_object_more {value : JsonText} (read : readValue (steps + 1) ('{' :: s) = some (value, rest))
    (more : List Char) : readValue (larger + 1) ('{' :: s ++ more) = some (value, rest ++ more) := by
  rcases readValue_object_eq_some_iff.mp read with ⟨skipped, rfl⟩ | ⟨fields, fieldsRead, rfl⟩
  · exact readValue_object_eq_some_iff.mpr (.inl ⟨skip_more skipped (by simp) more, rfl⟩)
  · obtain ⟨t, starts⟩ := readFields_cons fieldsRead
    have behind := readFields_more persists enough fieldsRead more
    rw [← skip_more rfl (by simp [starts])] at behind
    exact readValue_object_eq_some_iff.mpr (.inr ⟨fields, behind, rfl⟩)

omit persists enough

theorem persists_all (steps : Nat) : Persists steps := by
  induction steps using Nat.strongRecOn with
  | ind steps ih =>
    intro s rest value read inside larger enough more
    rcases steps with - | steps
    · cases read
    obtain ⟨larger, rfl⟩ := Nat.exists_eq_succ_of_ne_zero (Nat.ne_zero_of_lt enough)
    have enough := Nat.le_of_succ_le_succ enough
    have smaller : ∀ n < steps, Persists n := fun n less => ih n (by omega)
    have whole := read
    unfold readValue at read
    split at read
    -- The three words first, then strings, arrays and objects; a numeral is what is left.
    iterate 3
      · cases read
        rfl
    · obtain ⟨⟨pieces, after⟩, piecesRead, same⟩ := Option.map_eq_some_iff.mp read
      cases same
      rw [List.cons_append, readValue.eq_5, readPieces_more piecesRead]
      rfl
    · exact readValue_array_more smaller enough whole more
    · exact readValue_object_more smaller enough whole more
    · obtain ⟨⟨n, after⟩, numeralRead, same⟩ := Option.map_eq_some_iff.mp read
      cases same
      exact readValue_of_readNumeral (readNumeral_more numeralRead inside more) larger

end More

/-- Only what opens with a brace is read as an object. -/
theorem readValue_eq_object {steps : Nat} {s rest : List Char} {fields : List (List JsonPiece × JsonText)}
    (read : readValue steps s = some (.object fields, rest)) : ∃ t, s = '{' :: t := by
  rcases steps with - | steps
  · cases read
  unfold readValue at read
  split at read
  iterate 3 cases read
  · obtain ⟨_, _, same⟩ := Option.map_eq_some_iff.mp read
    cases same
  · split at read
    · cases read
    · obtain ⟨_, _, same⟩ := Option.map_eq_some_iff.mp read
      cases same
  · exact ⟨_, rfl⟩
  · obtain ⟨_, _, same⟩ := Option.map_eq_some_iff.mp read
    cases same

theorem numeral_ne_object (n : JsonNumeral) (fields : List (String × Json)) : n.value? ≠ some (.object fields) := by
  have double (f : FiniteFloat .binary64 → FiniteFloat .binary64) :
      (n.magnitude?.map fun x => Json.float (f x)) ≠ some (.object fields) := by
    intro same
    obtain ⟨_, _, same⟩ := Option.map_eq_some_iff.mp same
    cases same
  unfold JsonNumeral.value?
  dsimp only
  generalize (if n.negative = true then -(ofDigits n.whole : Int) else ofDigits n.whole) = integer
  split
  · split
    · simp
    · exact double _
  · exact double _

theorem value?_eq_object {t : JsonText} {depth : Nat} {fields : List (String × Json)}
    (value : t.value? depth = some (.object fields)) : ∃ written, t = .object written := by
  cases t with
  | object written => exact ⟨written, rfl⟩
  | null | bool => cases value
  | number n => exact absurd value (numeral_ne_object n fields)
  | string pieces =>
    obtain ⟨_, _, same⟩ := Option.map_eq_some_iff.mp value
    cases same
  | array items =>
    rw [value?] at value
    split at value
    · cases value
    · obtain ⟨_, _, same⟩ := Option.map_eq_some_iff.mp value
      cases same

/-- Whatever stands behind an object, no other value is read from its brace on. -/
theorem read?_object_append {s more : List Char} {t longer : JsonText} (read : read? ('{' :: s) = some t)
    (readLonger : read? ('{' :: s ++ more) = some longer) : longer = t := by
  obtain ⟨rest, valueRead, -⟩ := read?_eq_some_iff.mp read
  obtain ⟨after, longerRead, -⟩ := read?_eq_some_iff.mp readLonger
  rw [skip_cons rfl] at valueRead
  rw [List.cons_append, skip_cons rfl] at longerRead
  have alike : readValue (2 * ('{' :: (s ++ more)).length + 2) ('{' :: (s ++ more)) =
      some (t, rest ++ more) := by
    refine readValue_object_more (fun n _ => persists_all n) ?_ valueRead more
    simp only [List.length_cons, List.length_append]
    omega
  exact congrArg Prod.fst (Option.some.inj (longerRead.symm.trans alike))

end JsonText

namespace Json

theorem read?_eq_object {s : List Char} {fields : JsonFields} (read : read? s = some (.object fields)) :
    ∃ t, JsonText.skip s = '{' :: t := by
  obtain ⟨t, textRead, value⟩ := Option.bind_eq_some_iff.mp read
  obtain ⟨written, rfl⟩ := JsonText.value?_eq_object value
  obtain ⟨rest, valueRead, -⟩ := JsonText.read?_eq_some_iff.mp textRead
  exact JsonText.readValue_eq_object valueRead

theorem isBlank_of_isSpace {c : Char} (space : JsonText.isSpace c = true) : isBlank c = true := by
  simp only [JsonText.isSpace, Bool.or_eq_true, beq_iff_eq] at space
  rcases space with ((rfl | rfl) | rfl) | rfl <;> rfl

theorem skip_trim (s : List Char) : JsonText.skip (trim s) = trim s := by
  have stop : Stops isBlank (trim s) := (trim_eq_self_iff.mp (trim_trim s)).1
  refine (stop.mono fun c notBlank => ?_).dropWhile_eq
  cases space : JsonText.isSpace c with
  | false => rfl
  | true => exact absurd (isBlank_of_isSpace space) (by simp [notBlank])

/-- The JSON text of an object, from its opening to its closing brace. -/
structure ObjectText (text : List Char) (fields : JsonFields) : Prop where
  read : read? text = some (.object fields)
  opens : text.head? = some '{'
  closes : text.getLast? = some '}'

namespace ObjectText

variable {before text after : List Char} {fields : JsonFields}

theorem bare (object : ObjectText text fields) : Bare isBlank text where
  nonempty := by
    rintro rfl
    cases object.opens
  first := by
    rw [object.opens]
    rintro c ⟨⟩
    rfl
  last := by
    rw [object.closes]
    rintro c ⟨⟩
    rfl

theorem trim_message (object : ObjectText text fields) (before after : List Char) :
    trim (before ++ text ++ after) = before.dropWhile isBlank ++ (text ++ trimEnd after) := by
  rw [List.append_assoc]
  exact object.bare.dropAround before after

/-- From the first opening brace to the last closing one. -/
theorem braced (object : ObjectText text fields) (noOpen : '{' ∉ before) (noClose : '}' ∉ after) :
    dropEndWhile (· != '}') ((before ++ (text ++ after)).dropWhile (· != '{')) = text := by
  have outside {brace : Char} {s : List Char} (absent : brace ∉ s) : ∀ c ∈ s, (c != brace) = true := by
    intro c member
    rw [bne_iff_ne]
    rintro rfl
    exact absent member
  have opening : Stops (· != '{') (text ++ after) := by
    intro c member
    rw [List.head?_append, object.opens] at member
    cases member
    rfl
  have closing : ∀ c ∈ text.getLast?, (c != '}') = false := by
    rw [object.closes]
    rintro c ⟨⟩
    rfl
  rw [dropWhile_append_of_stops (outside noOpen) opening, dropEndWhile_append closing,
    dropEndWhile_eq_nil (outside noClose), List.append_nil]

/-- With no opening brace before it, an object that the whole message is read as is this one. -/
theorem eq_of_read? (object : ObjectText text fields) (noOpen : '{' ∉ before) {found : JsonFields}
    (whole : read? (trim (before ++ text ++ after)) = some (.object found)) : found = fields := by
  have noOpen : '{' ∉ before.dropWhile isBlank := fun member => noOpen ((List.dropWhile_suffix _).subset member)
  obtain ⟨t, starts⟩ := read?_eq_object whole
  rw [skip_trim, object.trim_message] at starts
  have front : before.dropWhile isBlank = [] := by
    cases split : before.dropWhile isBlank with
    | nil => rfl
    | cons c others =>
      rw [split] at starts noOpen
      exact absurd ((List.cons.inj starts).1 ▸ List.mem_cons_self) noOpen
  rw [object.trim_message, front, List.nil_append] at whole
  obtain ⟨s, rfl⟩ := List.head?_eq_some_iff.mp object.opens
  obtain ⟨written, textRead, value⟩ := Option.bind_eq_some_iff.mp object.read
  obtain ⟨longer, longerRead, longerValue⟩ := Option.bind_eq_some_iff.mp whole
  cases JsonText.read?_object_append textRead longerRead
  rw [value] at longerValue
  cases longerValue
  rfl

end ObjectText

/-- An object with no opening brace before it in a message and no closing one behind it is what is extracted, unless
the message itself, without the blanks around it, is the JSON text of something else than an object. -/
theorem extract?_embedded {before text after : List Char} {fields : JsonFields} (object : ObjectText text fields)
    (noOpen : '{' ∉ before) (noClose : '}' ∉ after) :
    extract? (before ++ text ++ after) = some (.object fields) ∨
      ∃ other, read? (trim (before ++ text ++ after)) = some other ∧ other.fields? = none ∧
        extract? (before ++ text ++ after) = some other := by
  have front : '{' ∉ before.dropWhile isBlank := fun member => noOpen ((List.dropWhile_suffix _).subset member)
  have back : '}' ∉ trimEnd after := fun member => noClose ((List.rdropWhile_prefix _ _).subset member)
  have braced := object.braced front back
  rw [← object.trim_message] at braced
  unfold extract?
  simp only [braced]
  cases whole : read? (trim (before ++ text ++ after)) with
  | none =>
    rw [if_neg (by simpa using object.bare.nonempty)]
    exact .inl object.read
  | some other =>
    cases other with
    | object found => exact .inl (by rw [object.eq_of_read? noOpen whole])
    | _ => exact .inr ⟨_, rfl, rfl, rfl⟩

/-- A closing brace before the object, an opening one behind it and both in its own string do not matter. -/
theorem extract?_embedded_fenced :
    ObjectText "\x7b\"a\":[1,\"\x7d\x7b\"]\x7d".toList [("a", .array [.ofInt 1, .string "\x7d\x7b"])] ∧
      extract? ("Sure \x7d```json\n".toList ++ "\x7b\"a\":[1,\"\x7d\x7b\"]\x7d".toList ++ "\n``` \x7b".toList) =
        some (.object [("a", .array [.ofInt 1, .string "\x7d\x7b"])]) := by
  have chars : "\x7b\"a\":[1,\"\x7d\x7b\"]\x7d".toList =
      ['{', '"', 'a', '"', ':', '[', '1', ',', '"', '}', '{', '"', ']', '}'] := rfl
  rw [chars]
  have object : ObjectText ['{', '"', 'a', '"', ':', '[', '1', ',', '"', '}', '{', '"', ']', '}']
      [("a", .array [.ofInt 1, .string "\x7d\x7b"])] := ⟨rfl, rfl, rfl⟩
  refine ⟨object, (extract?_embedded object (by decide) (by decide)).resolve_right ?_⟩
  -- As a whole the message is no JSON text.
  rintro ⟨other, whole, -⟩
  cases whole

-- In brackets the message is a JSON text already, of an array.
example : extract? ['[', '{', '}', ']'] = some (.array [.object []]) := rfl

end Json

end RobotScript
