import RobotScript.Json.Text
import RobotScript.Proofs.Number.Digits
import RobotScript.Proofs.Text.Runs

namespace RobotScript.JsonText

open Text

variable {s rest : List Char}

theorem skip_append {blank : List Char} (inside : ∀ c ∈ blank, isSpace c = true) (s : List Char) :
    skip (blank ++ s) = skip s :=
  List.dropWhile_append_of_pos inside

theorem skip_cons {c : Char} (other : isSpace c = false) (s : List Char) : skip (c :: s) = c :: s :=
  List.dropWhile_cons_of_neg (by simp [other])

theorem readPieces_escape {e c : Char} (short : escape? e = some c) (s : List Char) :
    readPieces ('\\' :: e :: s) = (readPieces s).map fun read => (.char c :: read.1, read.2) := by
  rw [readPieces.eq_4 e s ?_, short]
  · cases readPieces s <;> rfl
  · rintro _ _ _ _ _ rfl -
    simp [escape?] at short

theorem readPieces_plain {c : Char} (notQuote : c ≠ '"') (notSlash : c ≠ '\\') (printable : ¬c.toNat < 0x20)
    (s : List Char) : readPieces (c :: s) = (readPieces s).map fun read => (.char c :: read.1, read.2) := by
  rw [readPieces.eq_5 c s notQuote (fun _ _ _ _ _ same _ => notSlash same) (fun _ _ same _ => notSlash same),
    if_neg (by simp [notSlash, printable])]
  cases readPieces s <;> rfl

theorem readRun_eq_some_iff {run : List Char} :
    readRun s = some (run, rest) ↔
      s = run ++ rest ∧ run ≠ [] ∧ (∀ c ∈ run, isDigit c = true) ∧ Stops isDigit rest := by
  constructor
  · intro read
    unfold readRun at read
    split at read
    · cases read
    · rename_i nonempty
      cases read
      refine ⟨List.takeWhile_append_dropWhile.symm, by simpa using nonempty, ?_, stops_dropWhile isDigit s⟩
      exact fun c member => List.mem_takeWhile_imp member
  · rintro ⟨rfl, nonempty, inside, stop⟩
    rw [readRun, takeWhile_append_of_stops inside stop, dropWhile_append_of_stops inside stop,
      if_neg (by simpa using nonempty)]

theorem readFraction_eq_some_iff {fraction : List Char} :
    readFraction s = some (fraction, rest) ↔
      (fraction = [] ∧ s = rest ∧ Stops (· == '.') rest) ∨ ∃ t, s = '.' :: t ∧ readRun t = some (fraction, rest) := by
  constructor
  · intro read
    unfold readFraction at read
    split at read
    · exact .inr ⟨_, rfl, read⟩
    · rename_i noPoint
      cases read
      refine .inl ⟨rfl, rfl, fun c first => ?_⟩
      obtain ⟨t, rfl⟩ := List.head?_eq_some_iff.mp first
      exact beq_eq_false_iff_ne.mpr fun point => noPoint t (congrArg (· :: t) point)
  · rintro (⟨rfl, rfl, stop⟩ | ⟨t, rfl, read⟩)
    · refine readFraction.eq_2 s ?_
      rintro t rfl
      exact absurd (stop '.' rfl) (by decide)
    · exact read

theorem readExponent_unmarked {c : Char} (other : (c == 'e' || c == 'E') = false) (s : List Char) :
    readExponent (c :: s) = some (none, c :: s) := by
  simp [readExponent, other]

/-- Behind its mark an exponent is a run of digits, with a sign in front if there is one. -/
theorem readExponent_marked {mark : Char} (marked : (mark == 'e' || mark == 'E') = true) {sign : Option Char}
    (isSign : sign ∈ [none, some '+', some '-']) {t : List Char}
    (unsigned : sign = none → Stops (fun c => c == '+' || c == '-') t) :
    readExponent (mark :: (sign.toList ++ t)) = (readRun t).map fun read => (some (sign, read.1), read.2) := by
  simp only [List.mem_cons, List.not_mem_nil, or_false] at isSign
  rcases isSign with rfl | rfl | rfl
  · have other (c : Char) (isSign : (c == '+' || c == '-') = true) (u : List Char) : t ≠ c :: u := by
      rintro rfl
      have notSign : (c == '+' || c == '-') = false := unsigned rfl c rfl
      rw [notSign] at isSign
      cases isSign
    rw [Option.toList_none, List.nil_append, readExponent.eq_3 mark t (other '+' rfl) (other '-' rfl), if_pos marked]
    cases readRun t <;> rfl
  · rw [Option.toList_some, List.singleton_append, readExponent.eq_1, if_pos marked]
    cases readRun t <;> rfl
  · rw [Option.toList_some, List.singleton_append, readExponent.eq_2, if_pos marked]
    cases readRun t <;> rfl

theorem exists_sign (s : List Char) : ∃ sign t, sign ∈ [none, some '+', some '-'] ∧ s = sign.toList ++ t ∧
    (sign = none → Stops (fun c => c == '+' || c == '-') t) := by
  rcases s with - | ⟨c, s⟩
  · exact ⟨none, [], by simp, rfl, fun _ => stops_nil _⟩
  · by_cases isSign : (c == '+' || c == '-') = true
    · exact ⟨some c, s, by simpa using isSign, rfl, by simp⟩
    · exact ⟨none, c :: s, by simp, rfl, fun _ => stops_cons s (by simpa using isSign)⟩

theorem readExponent_eq_some_iff {exponent : Option (Option Char × List Char)} :
    readExponent s = some (exponent, rest) ↔
      (exponent = none ∧ s = rest ∧ Stops (fun c => c == 'e' || c == 'E') rest) ∨
      ∃ mark sign run t, (mark == 'e' || mark == 'E') = true ∧ sign ∈ [none, some '+', some '-'] ∧
        exponent = some (sign, run) ∧ s = mark :: (sign.toList ++ t) ∧ readRun t = some (run, rest) := by
  constructor
  · intro read
    rcases s with - | ⟨c, s⟩
    · cases read
      exact .inl ⟨rfl, rfl, stops_nil _⟩
    · by_cases marked : (c == 'e' || c == 'E') = true
      · obtain ⟨sign, t, isSign, rfl, unsigned⟩ := exists_sign s
        rw [readExponent_marked marked isSign unsigned] at read
        obtain ⟨⟨run, after⟩, digits, same⟩ := Option.map_eq_some_iff.mp read
        cases same
        exact .inr ⟨c, sign, run, t, marked, isSign, rfl, rfl, digits⟩
      · rw [readExponent_unmarked (by simpa using marked)] at read
        cases read
        exact .inl ⟨rfl, rfl, stops_cons s (by simpa using marked)⟩
  · rintro (⟨rfl, rfl, stop⟩ | ⟨mark, sign, run, t, marked, isSign, rfl, rfl, digits⟩)
    · cases s with
      | nil => rfl
      | cons c s => exact readExponent_unmarked (stop c rfl) s
    · have unsigned : Stops (fun c => c == '+' || c == '-') t := by
        obtain ⟨rfl, nonempty, inside, -⟩ := readRun_eq_some_iff.mp digits
        obtain ⟨d, run, rfl⟩ := List.exists_cons_of_ne_nil nonempty
        obtain ⟨notMinus, notPlus⟩ := ne_sign_of_isDigit (inside d List.mem_cons_self)
        exact stops_cons _ (by simp [notMinus, notPlus])
      rw [readExponent_marked marked isSign fun _ => unsigned, digits]
      rfl

/-- Behind its sign a numeral is digits, a fraction and an exponent, where each may fail. -/
theorem readNumeral_signed {negative : Bool} {t : List Char} (unsigned : negative = false → t.head? ≠ some '-') :
    readNumeral ((if negative then ['-'] else []) ++ t) = (readRun t).bind fun whole =>
      if whole.1.head? == some '0' && whole.1.length ≠ 1 then none
      else (readFraction whole.2).bind fun fraction => (readExponent fraction.2).bind fun exponent =>
        some (⟨negative, whole.1, fraction.1, exponent.1⟩, exponent.2) := by
  cases negative with
  | true => rfl
  | false =>
    refine readNumeral.eq_2 t ?_
    rintro u rfl
    exact unsigned rfl rfl

theorem readNumeral_eq_some_iff {n : JsonNumeral} :
    readNumeral s = some (n, rest) ↔ ∃ t u v, s = (if n.negative then ['-'] else []) ++ t ∧
      readRun t = some (n.whole, u) ∧ (n.whole.head? = some '0' → n.whole.length = 1) ∧
      readFraction u = some (n.fraction, v) ∧ readExponent v = some (n.exponent, rest) := by
  constructor
  · intro read
    obtain ⟨negative, t, rfl, unsigned⟩ : ∃ negative t, s = (if negative then ['-'] else []) ++ t ∧
        (negative = false → t.head? ≠ some '-') := by
      by_cases minus : s.head? = some '-'
      · obtain ⟨t, rfl⟩ := List.head?_eq_some_iff.mp minus
        exact ⟨true, t, rfl, by simp⟩
      · exact ⟨false, s, rfl, fun _ => minus⟩
    rw [readNumeral_signed unsigned] at read
    obtain ⟨⟨whole, u⟩, wholeRead, read⟩ := Option.bind_eq_some_iff.mp read
    split at read
    · cases read
    · rename_i front
      obtain ⟨⟨fraction, v⟩, fractionRead, read⟩ := Option.bind_eq_some_iff.mp read
      obtain ⟨⟨exponent, after⟩, exponentRead, same⟩ := Option.bind_eq_some_iff.mp read
      cases same
      exact ⟨t, u, v, rfl, wholeRead, by simpa using front, fractionRead, exponentRead⟩
  · rintro ⟨t, u, v, rfl, whole, front, fraction, exponent⟩
    have unsigned : t.head? ≠ some '-' := by
      obtain ⟨rfl, nonempty, inside, -⟩ := readRun_eq_some_iff.mp whole
      rw [List.head?_append_of_ne_nil _ nonempty]
      exact fun minus => (ne_sign_of_isDigit (inside '-' (List.mem_of_head? minus))).1 rfl
    rw [readNumeral_signed fun _ => unsigned, whole, Option.bind_some, if_neg (by simpa using front), fraction,
      Option.bind_some, exponent]
    rfl

/-- A numeral starts with a minus or a digit. -/
theorem readNumeral_cons {n : JsonNumeral} (read : readNumeral s = some (n, rest)) :
    ∃ c t, s = c :: t ∧ ∀ d, d ≠ '-' → isDigit d = false → c ≠ d := by
  obtain ⟨t, u, v, rfl, whole, -⟩ := readNumeral_eq_some_iff.mp read
  obtain ⟨rfl, nonempty, inside, -⟩ := readRun_eq_some_iff.mp whole
  obtain ⟨c, others, split⟩ := List.exists_cons_of_ne_nil nonempty
  have digit := inside c (by simp [split])
  rw [split]
  cases n.negative with
  | true => exact ⟨'-', _, rfl, fun d other _ => Ne.symm other⟩
  | false =>
    refine ⟨c, _, rfl, ?_⟩
    rintro d - notDigit rfl
    exact absurd digit (by simp [notDigit])

section Values

variable {steps : Nat} {value : JsonText} {items : List JsonText} {fields : List (List JsonPiece × JsonText)}

theorem readValue_of_readNumeral {n : JsonNumeral} (read : readNumeral s = some (n, rest)) (steps : Nat) :
    readValue (steps + 1) s = some (.number n, rest) := by
  obtain ⟨c, t, rfl, other⟩ := readNumeral_cons read
  have start (d : Char) (u : List Char) (notMinus : d ≠ '-') (notDigit : isDigit d = false) : c :: t ≠ d :: u :=
    fun same => other d notMinus notDigit (List.cons.inj same).1
  rw [readValue.eq_8 _ _ (fun _ => start _ _ (by decide) (by decide)) (fun _ => start _ _ (by decide) (by decide))
    (fun _ => start _ _ (by decide) (by decide)) (fun _ => start _ _ (by decide) (by decide))
    (fun _ => start _ _ (by decide) (by decide)) (fun _ => start _ _ (by decide) (by decide)), read]
  rfl

theorem readItems_succ_eq_some_iff :
    readItems (steps + 1) s = some (items, rest) ↔ ∃ item after, readValue steps s = some (item, after) ∧
      (skip after = ']' :: rest ∧ items = [item] ∨
        ∃ t others, skip after = ',' :: t ∧ readItems steps (skip t) = some (others, rest) ∧
          items = item :: others) := by
  rw [readItems.eq_2]
  constructor
  · intro read
    obtain ⟨⟨item, after⟩, itemRead, read⟩ := Option.bind_eq_some_iff.mp read
    refine ⟨item, after, itemRead, ?_⟩
    dsimp only at read
    split at read
    · rename_i skipped
      cases read
      exact .inl ⟨skipped, rfl⟩
    · rename_i t skipped
      obtain ⟨⟨others, after⟩, othersRead, same⟩ := Option.bind_eq_some_iff.mp read
      cases same
      exact .inr ⟨t, others, skipped, othersRead, rfl⟩
    · cases read
  · rintro ⟨item, after, itemRead, ⟨skipped, rfl⟩ | ⟨t, others, skipped, othersRead, rfl⟩⟩
    · simp only [itemRead, Option.bind_eq_bind, Option.bind_some, skipped]
      rfl
    · simp only [itemRead, Option.bind_eq_bind, Option.bind_some, skipped, othersRead]
      rfl

theorem readFields_succ_eq_some_iff :
    readFields (steps + 1) s = some (fields, rest) ↔ ∃ t key u v value after, s = '"' :: t ∧
      readPieces t = some (key, u) ∧ skip u = ':' :: v ∧ readValue steps (skip v) = some (value, after) ∧
      (skip after = '}' :: rest ∧ fields = [(key, value)] ∨
        ∃ w others, skip after = ',' :: w ∧ readFields steps (skip w) = some (others, rest) ∧
          fields = (key, value) :: others) := by
  constructor
  · intro read
    by_cases quoted : ∃ t, s = '"' :: t
    · obtain ⟨t, rfl⟩ := quoted
      rw [readFields.eq_2] at read
      obtain ⟨⟨key, u⟩, keyRead, read⟩ := Option.bind_eq_some_iff.mp read
      dsimp only at read
      split at read
      · rename_i v colon
        obtain ⟨⟨value, after⟩, valueRead, read⟩ := Option.bind_eq_some_iff.mp read
        refine ⟨t, key, u, v, value, after, rfl, keyRead, colon, valueRead, ?_⟩
        dsimp only at read
        split at read
        · rename_i skipped
          cases read
          exact .inl ⟨skipped, rfl⟩
        · rename_i w skipped
          obtain ⟨⟨others, after⟩, othersRead, same⟩ := Option.bind_eq_some_iff.mp read
          cases same
          exact .inr ⟨w, others, skipped, othersRead, rfl⟩
        · cases read
      · cases read
    · rw [readFields.eq_3 s steps fun t same => quoted ⟨t, same⟩] at read
      cases read
  · rintro ⟨t, key, u, v, value, after, rfl, keyRead, colon, valueRead, ending⟩
    rw [readFields.eq_2]
    simp only [keyRead, Option.bind_eq_bind, Option.bind_some, colon, valueRead]
    rcases ending with ⟨skipped, rfl⟩ | ⟨w, others, skipped, othersRead, rfl⟩
    · rw [skipped]
      rfl
    · rw [skipped]
      simp only [othersRead, Option.bind_some]
      rfl

theorem readItems_cons (read : readItems steps s = some (items, rest)) : ∃ c t, s = c :: t ∧ c ≠ ']' := by
  rcases steps with - | steps
  · cases read
  obtain ⟨item, after, itemRead, -⟩ := readItems_succ_eq_some_iff.mp read
  cases s with
  | nil => cases steps <;> cases itemRead
  | cons c t =>
    refine ⟨c, t, rfl, ?_⟩
    rintro rfl
    cases steps <;> cases itemRead

theorem readFields_cons (read : readFields steps s = some (fields, rest)) : ∃ t, s = '"' :: t := by
  rcases steps with - | steps
  · cases read
  obtain ⟨t, -, -, -, -, -, rfl, -⟩ := readFields_succ_eq_some_iff.mp read
  exact ⟨t, rfl⟩

theorem readValue_array_eq_some_iff :
    readValue (steps + 1) ('[' :: s) = some (value, rest) ↔ skip s = ']' :: rest ∧ value = .array [] ∨
      ∃ items, readItems steps (skip s) = some (items, rest) ∧ value = .array items := by
  rw [readValue.eq_6]
  constructor
  · intro read
    split at read
    · rename_i skipped
      cases read
      exact .inl ⟨skipped, rfl⟩
    · obtain ⟨⟨items, after⟩, itemsRead, same⟩ := Option.map_eq_some_iff.mp read
      cases same
      exact .inr ⟨items, itemsRead, rfl⟩
  · rintro (⟨skipped, rfl⟩ | ⟨items, itemsRead, rfl⟩)
    · simp only [skipped]
    · obtain ⟨c, t, starts, notEnd⟩ := readItems_cons itemsRead
      split
      · rename_i skipped
        exact absurd (List.cons.inj (starts.symm.trans skipped)).1 notEnd
      · rw [itemsRead]
        rfl

theorem readValue_object_eq_some_iff :
    readValue (steps + 1) ('{' :: s) = some (value, rest) ↔ skip s = '}' :: rest ∧ value = .object [] ∨
      ∃ fields, readFields steps (skip s) = some (fields, rest) ∧ value = .object fields := by
  rw [readValue.eq_7]
  constructor
  · intro read
    split at read
    · rename_i skipped
      cases read
      exact .inl ⟨skipped, rfl⟩
    · obtain ⟨⟨fields, after⟩, fieldsRead, same⟩ := Option.map_eq_some_iff.mp read
      cases same
      exact .inr ⟨fields, fieldsRead, rfl⟩
  · rintro (⟨skipped, rfl⟩ | ⟨fields, fieldsRead, rfl⟩)
    · simp only [skipped]
    · obtain ⟨t, starts⟩ := readFields_cons fieldsRead
      split
      · rename_i skipped
        exact absurd (List.cons.inj (starts.symm.trans skipped)).1 (by decide)
      · rw [fieldsRead]
        rfl

theorem read?_eq_some_iff :
    read? s = some value ↔ ∃ rest, readValue (2 * s.length + 2) (skip s) = some (value, rest) ∧ skip rest = [] := by
  constructor
  · intro read
    obtain ⟨⟨found, rest⟩, valueRead, ending⟩ := Option.bind_eq_some_iff.mp read
    dsimp only at ending
    split at ending
    · rename_i blank
      cases ending
      exact ⟨rest, valueRead, List.isEmpty_iff.mp blank⟩
    · cases ending
  · rintro ⟨rest, valueRead, blank⟩
    simp only [read?, valueRead, Option.bind_eq_bind, Option.bind_some, blank]
    rfl

end Values

end RobotScript.JsonText
