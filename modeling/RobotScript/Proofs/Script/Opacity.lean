import RobotScript.Proofs.Script.Checking

namespace RobotScript.Script

/-- A text by its segments: a character, a quoted literal, or a quote that nothing closes. -/
theorem segment_induction {motive : List Char → Prop} (nil : motive [])
    (char : ∀ c s, Quoted.isQuote c = false → motive s → motive (c :: s))
    (quoted : ∀ literal s, Quoted.isWhole literal = true → motive s → motive (literal ++ s))
    (unclosed : ∀ c s, Quoted.isQuote c = true → Quoted.split? (c :: s) = none → motive (c :: s))
    (s : List Char) : motive s := by
  induction bound : s.length using Nat.strong_induction_on generalizing s with
  | h size ih =>
    cases s with
    | nil => exact nil
    | cons c s =>
      cases quote : Quoted.isQuote c with
      | false => exact char c s quote (ih s.length (by simp [← bound]) s rfl)
      | true =>
        cases found : Quoted.split? (c :: s) with
        | none => exact unclosed c s quote found
        | some parts =>
          obtain ⟨whole, split⟩ := Quoted.isWhole_of_split? found
          obtain ⟨_, inner, _, _, shape⟩ := Quoted.isWhole_iff.mp whole
          have shorter : parts.2.length < size := by
            rw [← bound, split, shape]
            simp only [List.length_append, List.length_cons]
            omega
          rw [split]
          exact quoted parts.1 parts.2 whole (ih _ shorter _ rfl)

theorem segments_unclosed {c : Char} {s : List Char} (quote : Quoted.isQuote c = true)
    (unclosed : Quoted.split? (c :: s) = none) : segments (c :: s) = [.unclosed (c :: s)] := by
  simp only [segments, List.length_cons, segmentsUpTo, quote, if_true, unclosed]

theorem withoutQuoted_unclosed {c : Char} {s : List Char} (quote : Quoted.isQuote c = true)
    (unclosed : Quoted.split? (c :: s) = none) : withoutQuoted (c :: s) = c :: s := by
  simp [withoutQuoted, segments_unclosed quote unclosed, Segment.emptied]

theorem exists_quote_of_isWhole {literal : List Char} (whole : Quoted.isWhole literal = true) :
    ∃ quote inner, literal = quote :: inner ∧ Quoted.isQuote quote = true ∧
      literal.getLast? = some quote ∧ Quoted.isWhole [quote, quote] = true ∧
      literal.take 1 ++ literal.take 1 = [quote, quote] := by
  obtain ⟨quote, inner, isQuote, closes, rfl⟩ := Quoted.isWhole_iff.mp whole
  obtain ⟨content, rfl⟩ := closes.ends
  refine ⟨quote, _, rfl, isQuote, ?_, ?_, rfl⟩
  · rw [← List.cons_append, List.getLast?_concat]
  · exact Quoted.isWhole_iff.mpr ⟨quote, [quote], isQuote, .close, rfl⟩

/-- A segment of the text whose quoted literals are emptied. -/
def Segment.hollow : Segment → Segment
  | .quoted literal => .quoted (literal.take 1 ++ literal.take 1)
  | segment => segment

theorem segments_withoutQuoted (s : List Char) :
    segments (withoutQuoted s) = (segments s).map Segment.hollow := by
  induction s using segment_induction with
  | nil => rfl
  | char c s plain ih =>
    rw [withoutQuoted_cons s plain, segments_cons _ plain, segments_cons _ plain, ih]
    rfl
  | quoted literal s whole ih =>
    obtain ⟨quote, inner, _, _, _, wholePair, pair⟩ := exists_quote_of_isWhole whole
    rw [withoutQuoted_whole whole, segments_whole whole, List.map_cons, Segment.hollow, pair,
      segments_whole wholePair, ih]
  | unclosed c s quote unclosed =>
    rw [withoutQuoted_unclosed quote unclosed, segments_unclosed quote unclosed]
    rfl

/-- A character changes what is due, or the check fails at it, wherever it stands and whatever follows. -/
theorem checkBrackets_char_cases (c : Char) (pending : List Char) :
    (∃ due, ∀ index rest, checkBrackets pending index (.char c :: rest) =
        checkBrackets due (index + c.utf8Size) rest) ∨
      ∀ index rest, checkBrackets pending index (.char c :: rest) ≠ .ok () := by
  simp only [checkBrackets_char]
  cases due? pending c with
  | some due => exact .inl ⟨due, fun _ _ => rfl⟩
  | none => exact .inr fun _ _ passed => by cases passed

/-- What stands in the literals, and where the brackets stand, does not matter to their balance. -/
theorem checkBrackets_hollow (segs : List Segment) (pending : List Char) (i j : Nat) :
    checkBrackets pending i (segs.map Segment.hollow) = .ok () ↔ checkBrackets pending j segs = .ok () := by
  induction segs generalizing pending i j with
  | nil => cases pending <;> simp [checkBrackets]
  | cons segment segs ih =>
    rw [List.map_cons]
    cases segment with
    | quoted literal =>
      simp only [Segment.hollow, checkBrackets]
      exact ih ..
    | unclosed rest => simp [Segment.hollow, checkBrackets]
    | char c =>
      show checkBrackets pending i (.char c :: segs.map Segment.hollow) = .ok () ↔ _
      rcases checkBrackets_char_cases c pending with ⟨due, step⟩ | fails
      · rw [step, step]
        exact ih ..
      · exact iff_of_false (fails _ _) (fails _ _)

theorem checkBalanced_withoutQuoted_iff (s : List Char) :
    checkBalanced (withoutQuoted s) = .ok () ↔ checkBalanced s = .ok () := by
  rw [checkBalanced, segments_withoutQuoted]
  exact checkBrackets_hollow ..

theorem withoutQuoted_withoutQuoted (s : List Char) : withoutQuoted (withoutQuoted s) = withoutQuoted s := by
  induction s using segment_induction with
  | nil => rfl
  | char c s plain ih => rw [withoutQuoted_cons s plain, withoutQuoted_cons _ plain, ih]
  | quoted literal s whole ih =>
    obtain ⟨quote, inner, _, _, _, wholePair, pair⟩ := exists_quote_of_isWhole whole
    rw [withoutQuoted_whole whole, pair, withoutQuoted_whole wholePair, ih]
    rfl
  | unclosed c s quote unclosed =>
    rw [withoutQuoted_unclosed quote unclosed, withoutQuoted_unclosed quote unclosed]

theorem head?_withoutQuoted (s : List Char) : (withoutQuoted s).head? = s.head? := by
  induction s using segment_induction with
  | nil => rfl
  | char c s plain => rw [withoutQuoted_cons s plain, List.head?_cons, List.head?_cons]
  | quoted literal s whole =>
    obtain ⟨quote, inner, rfl, _, _, _, pair⟩ := exists_quote_of_isWhole whole
    rw [withoutQuoted_whole whole, pair]
    rfl
  | unclosed c s quote unclosed => rw [withoutQuoted_unclosed quote unclosed]

theorem getLast?_withoutQuoted (s : List Char) : (withoutQuoted s).getLast? = s.getLast? := by
  induction s using segment_induction with
  | nil => rfl
  | char c s plain ih => rw [withoutQuoted_cons s plain, List.getLast?_cons, List.getLast?_cons, ih]
  | quoted literal s whole ih =>
    obtain ⟨quote, inner, _, _, last, _, pair⟩ := exists_quote_of_isWhole whole
    rw [withoutQuoted_whole whole, pair, List.getLast?_append, List.getLast?_append, ih, last]
    rfl
  | unclosed c s quote unclosed => rw [withoutQuoted_unclosed quote unclosed]

/-- Characters that are no quotes are never taken out, and none of them come together. -/
theorem prefix_withoutQuoted_iff {t : List Char} (plain : ∀ c ∈ t, Quoted.isQuote c = false) (s : List Char) :
    t <+: withoutQuoted s ↔ t <+: s := by
  induction t generalizing s with
  | nil => simp
  | cons c t ih =>
    obtain ⟨first, others⟩ := List.forall_mem_cons.mp plain
    by_cases starts : s.head? = some c
    · obtain ⟨s, rfl⟩ := List.head?_eq_some_iff.mp starts
      rw [withoutQuoted_cons s first, List.cons_prefix_cons, List.cons_prefix_cons, ih others]
    · have never (u : List Char) (same : u.head? = s.head?) : ¬(c :: t <+: u) := by
        rintro ⟨rest, rfl⟩
        exact starts same.symm
      exact iff_of_false (never _ (head?_withoutQuoted s)) (never s rfl)

/-- Every quote of a text is closed in it. -/
inductive Closed : List Char → Prop
  | nil : Closed []
  | char {c : Char} {s : List Char} : Quoted.isQuote c = false → Closed s → Closed (c :: s)
  | quoted {literal s : List Char} : Quoted.isWhole literal = true → Closed s → Closed (literal ++ s)

namespace Closed

variable {a s t literal : List Char} {c : Char}

theorem of_plain (plain : ∀ c ∈ t, Quoted.isQuote c = false) : Closed t := by
  induction t with
  | nil => exact .nil
  | cons c t ih =>
    obtain ⟨first, others⟩ := List.forall_mem_cons.mp plain
    exact .char first (ih others)

/-- What a closed text starts with: nothing, a character that is no quote, or a literal. -/
theorem cases_iff : Closed s ↔ s = [] ∨ (∃ c t, s = c :: t ∧ Quoted.isQuote c = false ∧ Closed t) ∨
    ∃ literal t, Quoted.split? s = some (literal, t) ∧ Closed t := by
  constructor
  · rintro (_ | ⟨plain, closed⟩ | ⟨whole, closed⟩)
    · exact .inl rfl
    · exact .inr (.inl ⟨_, _, rfl, plain, closed⟩)
    · exact .inr (.inr ⟨_, _, Quoted.split?_append_of_isWhole whole _, closed⟩)
  · rintro (rfl | ⟨c, t, rfl, plain, closed⟩ | ⟨literal, t, found, closed⟩)
    · exact .nil
    · exact .char plain closed
    · obtain ⟨whole, rfl⟩ := Quoted.isWhole_of_split? found
      exact .quoted whole closed

theorem char_iff (plain : Quoted.isQuote c = false) : Closed (c :: t) ↔ Closed t := by
  refine ⟨fun closed => ?_, .char plain⟩
  rcases cases_iff.mp closed with none | ⟨_, _, same, _, rest⟩ | ⟨_, _, found, _⟩
  · cases none
  · cases same
    exact rest
  · simp [Quoted.split?, plain] at found

theorem quoted_iff (whole : Quoted.isWhole literal = true) : Closed (literal ++ t) ↔ Closed t := by
  refine ⟨fun closed => ?_, .quoted whole⟩
  obtain ⟨quote, inner, shape, isQuote, _⟩ := exists_quote_of_isWhole whole
  rcases cases_iff.mp closed with none | ⟨_, _, same, plain, _⟩ | ⟨_, _, found, rest⟩
  · simp [shape] at none
  · rw [shape] at same
    cases same
    rw [isQuote] at plain
    cases plain
  · rw [Quoted.split?_append_of_isWhole whole] at found
    cases found
    exact rest

theorem append_iff (closed : Closed a) : Closed (a ++ t) ↔ Closed t := by
  induction closed with
  | nil => rfl
  | char plain _ ih => rw [List.cons_append, char_iff plain, ih]
  | quoted whole _ ih => rw [List.append_assoc, quoted_iff whole, ih]

theorem withoutQuoted_append (closed : Closed a) (s : List Char) :
    withoutQuoted (a ++ s) = withoutQuoted a ++ withoutQuoted s := by
  induction closed with
  | nil => rfl
  | char plain _ ih =>
    rw [List.cons_append, withoutQuoted_cons _ plain, withoutQuoted_cons _ plain, ih, List.cons_append]
  | quoted whole _ ih =>
    rw [List.append_assoc, withoutQuoted_whole whole, withoutQuoted_whole whole, ih,
      List.append_assoc _ _ (withoutQuoted s)]

end Closed

/-- The rest of a text starts outside its quoted literals: all quotes before it are closed before it. -/
def Outside (s rest : List Char) : Prop := ∃ before, s = before ++ rest ∧ Closed before

/-- Of two places outside the literals the earlier one stays the earlier one. -/
theorem Outside.length_lt_iff {s rest other : List Char} (first : Outside s rest) (second : Outside s other) :
    (withoutQuoted rest).length < (withoutQuoted other).length ↔ rest.length < other.length := by
  -- The longer one of two such rests is the shorter one behind a closed piece.
  have longer {a b : List Char} (atA : Outside s a) (atB : Outside s b) (le : a.length ≤ b.length) :
      ∃ piece, b = piece ++ a ∧ withoutQuoted b = withoutQuoted piece ++ withoutQuoted a := by
    obtain ⟨beforeA, rfl, closedA⟩ := atA
    obtain ⟨beforeB, split, closedB⟩ := atB
    rcases List.append_eq_append_iff.mp split with ⟨piece, rfl, rfl⟩ | ⟨piece, rfl, rfl⟩
    · have none : piece = [] := by
        rw [← List.length_eq_zero_iff]
        simp only [List.length_append] at le
        omega
      rw [none]
      exact ⟨[], rfl, rfl⟩
    · exact ⟨piece, rfl, ((Closed.append_iff closedB).mp closedA).withoutQuoted_append a⟩
  rcases Nat.le_total rest.length other.length with le | le
  · obtain ⟨piece, rfl, emptied⟩ := longer first second le
    have same : withoutQuoted piece = [] ↔ piece = [] := by
      rw [← List.head?_eq_none_iff, head?_withoutQuoted, List.head?_eq_none_iff]
    rw [emptied, List.length_append, List.length_append, Nat.lt_add_left_iff_pos, Nat.lt_add_left_iff_pos,
      List.length_pos_iff, List.length_pos_iff, ne_eq, same]
  · obtain ⟨piece, rfl, emptied⟩ := longer second first le
    simp only [emptied, List.length_append]
    omega

theorem Outside.eq_of_length {s rest other : List Char} (first : Outside s rest) (second : Outside s other)
    (same : rest.length = other.length) : rest = other := by
  obtain ⟨before, split, -⟩ := first
  obtain ⟨before', split', -⟩ := second
  exact (List.append_inj' (split.symm.trans split') same).2

/-- The text from the first place on where a mark stands outside the literals. -/
structure FirstOutside (mark : String) (s found : List Char) : Prop where
  starts : mark.toList <+: found
  outside : Outside s found
  first : ∀ rest, Outside s (mark.toList ++ rest) → (mark.toList ++ rest).length ≤ found.length

/-- What is found is the text from the first place on where the mark stands. -/
theorem seek?_eq_some {mark : String} {s found : List Char} (run : Text.seek? mark s = some found) :
    (∃ rest, found = mark.toList ++ rest) ∧ found <:+ s := by
  induction s with
  | nil => cases run
  | cons c s ih =>
    simp only [Text.seek?] at run
    split at run
    · rename_i here
      cases run
      obtain ⟨rest, strip⟩ := Option.isSome_iff_exists.mp here
      exact ⟨⟨rest, Text.strip?_eq_some_iff.mp strip⟩, List.suffix_refl _⟩
    · obtain ⟨starts, suffix⟩ := ih run
      exact ⟨starts, suffix.trans (List.suffix_cons c s)⟩

/-- A text that is not empty and has no quote in it. -/
structure Mark (mark : String) : Prop where
  nonempty : mark.toList ≠ []
  plain : ∀ c ∈ mark.toList, Quoted.isQuote c = false

theorem mark_of_decide {mark : String}
    (plain : (!mark.toList.isEmpty && mark.toList.all (!Quoted.isQuote ·)) = true) : Mark mark := by
  simp only [Bool.and_eq_true, Bool.not_eq_true', List.isEmpty_eq_false_iff, List.all_eq_true] at plain
  exact ⟨plain.1, plain.2⟩

theorem setup_isMark : Mark "|S|" := mark_of_decide (by decide)

theorem loop_isMark : Mark "|L|" := mark_of_decide (by decide)

namespace Mark

variable {mark : String} (isMark : Mark mark)
include isMark

theorem seek?_occurs (before rest : List Char) :
    ∃ found, Text.seek? mark (before ++ (mark.toList ++ rest)) = some found ∧
      (mark.toList ++ rest).length ≤ found.length := by
  induction before with
  | nil => exact ⟨_, seek?_here isMark.nonempty rest, Nat.le_refl _⟩
  | cons c before ih =>
    simp only [List.cons_append, Text.seek?]
    split
    · refine ⟨_, rfl, ?_⟩
      simp only [List.length_cons, List.length_append]
      omega
    · exact ih

theorem seek?_quote {quote : Char} (isQuote : Quoted.isQuote quote = true) (s : List Char) :
    Text.seek? mark (quote :: s) = Text.seek? mark s := by
  obtain ⟨m, marks, shape⟩ := List.exists_cons_of_ne_nil isMark.nonempty
  refine seek?_cons (strip?_eq_none fun rest same => ?_)
  rw [shape] at same
  rw [(List.cons.inj same).1, isMark.plain m (by simp [shape])] at isQuote
  cases isQuote

theorem strip?_withoutQuoted (s : List Char) :
    (Text.strip? mark (withoutQuoted s)).isSome = (Text.strip? mark s).isSome := by
  have isPrefix (u : List Char) : (Text.strip? mark u).isSome = true ↔ mark.toList <+: u := by
    rw [Option.isSome_iff_exists]
    exact exists_congr fun rest => Text.strip?_eq_some_iff.trans eq_comm
  rw [Bool.eq_iff_iff, isPrefix, isPrefix, prefix_withoutQuoted_iff isMark.plain]

/-- A mark outside the literals is still there when they are emptied. -/
theorem seek?_of_outside {s rest : List Char} (outside : Outside s (mark.toList ++ rest)) :
    ∃ found, Text.seek? mark (withoutQuoted s) = some found ∧
      (withoutQuoted (mark.toList ++ rest)).length ≤ found.length := by
  obtain ⟨before, rfl, closed⟩ := outside
  rw [closed.withoutQuoted_append, withoutQuoted_append _ isMark.plain]
  exact isMark.seek?_occurs _ _

/-- A mark that is found when the literals are emptied stands outside them. -/
theorem outside_of_seek? {s found : List Char} (closed : Closed s)
    (run : Text.seek? mark (withoutQuoted s) = some found) :
    ∃ rest, Outside s (mark.toList ++ rest) ∧ found = withoutQuoted (mark.toList ++ rest) := by
  induction closed with
  | nil => cases run
  | @char c s plain _ ih =>
    have here := isMark.strip?_withoutQuoted (c :: s)
    rw [withoutQuoted_cons s plain] at here run
    simp only [Text.seek?, here] at run
    split at run
    · rename_i starts
      obtain ⟨rest, strip⟩ := Option.isSome_iff_exists.mp starts
      have split := Text.strip?_eq_some_iff.mp strip
      rw [← withoutQuoted_cons s plain, split] at run
      exact ⟨rest, ⟨[], split, .nil⟩, (Option.some.inj run).symm⟩
    · obtain ⟨rest, ⟨before, rfl, closed⟩, same⟩ := ih run
      exact ⟨rest, ⟨c :: before, rfl, .char plain closed⟩, same⟩
  | @quoted literal s whole _ ih =>
    obtain ⟨quote, _, _, isQuote, _, _, pair⟩ := exists_quote_of_isWhole whole
    have skipped := (isMark.seek?_quote isQuote (quote :: withoutQuoted s)).trans (isMark.seek?_quote isQuote _)
    rw [withoutQuoted_whole whole, pair] at run
    obtain ⟨rest, ⟨before, rfl, closed⟩, same⟩ := ih (skipped.symm.trans run)
    exact ⟨rest, ⟨literal ++ before, by rw [List.append_assoc], .quoted whole closed⟩, same⟩

theorem length_le_of_seek? {s rest first : List Char} (run : Text.seek? mark s = some first)
    (outside : Outside s (mark.toList ++ rest)) : (mark.toList ++ rest).length ≤ first.length := by
  obtain ⟨before, rfl, _⟩ := outside
  obtain ⟨found, again, le⟩ := isMark.seek?_occurs before rest
  rw [run] at again
  cases again
  exact le

/-- In the text with its literals emptied the first mark is the one that was the first outside them. -/
theorem seek?_withoutQuoted_iff {s found : List Char} (closed : Closed s) :
    Text.seek? mark (withoutQuoted s) = some found ↔
      ∃ rest, FirstOutside mark s rest ∧ found = withoutQuoted rest := by
  constructor
  · intro run
    obtain ⟨behind, outside, same⟩ := isMark.outside_of_seek? closed run
    refine ⟨mark.toList ++ behind, ⟨List.prefix_append _ _, outside, fun rest isOutside => ?_⟩, same⟩
    obtain ⟨_, again, notBefore⟩ := isMark.seek?_of_outside isOutside
    cases run.symm.trans again
    rw [same] at notBefore
    exact Nat.le_of_not_lt fun longer => Nat.not_lt_of_le notBefore ((outside.length_lt_iff isOutside).mpr longer)
  · rintro ⟨_, ⟨⟨behind, rfl⟩, outside, first⟩, rfl⟩
    obtain ⟨found, run, notBehind⟩ := isMark.seek?_of_outside outside
    obtain ⟨rest, isOutside, rfl⟩ := isMark.outside_of_seek? closed run
    have notBefore := first rest isOutside
    have ordered := isOutside.length_lt_iff outside
    rw [run, isOutside.eq_of_length outside (by omega)]

theorem exists_firstOutside {s rest : List Char} (closed : Closed s) (outside : Outside s (mark.toList ++ rest)) :
    ∃ found, FirstOutside mark s found := by
  obtain ⟨found, run, -⟩ := isMark.seek?_of_outside outside
  obtain ⟨first, isFirst, -⟩ := (isMark.seek?_withoutQuoted_iff closed).mp run
  exact ⟨first, isFirst⟩

/-- A mark that is the first of all and outside the literals is the first outside them. -/
theorem firstOutside_of_seek? {s first : List Char} (run : Text.seek? mark s = some first)
    (outside : Outside s first) : FirstOutside mark s first := by
  obtain ⟨⟨behind, rfl⟩, -⟩ := seek?_eq_some run
  exact ⟨List.prefix_append _ _, outside, fun _ => isMark.length_le_of_seek? run⟩

end Mark

theorem checkChars_eq_ok_iff {s : List Char} : checkChars s = .ok () ↔
    (Text.strip? "|I|" s).isSome = true ∧ s.getLast? = some '|' ∧ checkBalanced s = .ok () ∧
      ∃ setup loop, Text.seek? "|S|" s = some setup ∧ Text.seek? "|L|" s = some loop ∧
        loop.length < setup.length ∧ checkFragments (withoutQuoted setup) = .ok () := by
  constructor
  · intro passed
    unfold checkChars at passed
    cases empty : s.isEmpty with
    | true =>
      rw [empty] at passed
      cases passed
    | false =>
      simp only [empty, Bool.false_eq_true, if_false] at passed
      split at passed
      · rename_i rest setup loop start atSetup atLoop
        split at passed
        · cases passed
        · rename_i ordered
          split at passed
          · cases passed
          · rename_i final
            obtain ⟨_, balanced, fragments⟩ := bind_eq_ok passed
            exact ⟨by rw [start]; rfl, not_not.mp final, balanced, setup, loop, atSetup, atLoop,
              Nat.lt_of_not_le ordered, fragments⟩
      · cases passed
  · rintro ⟨start, final, balanced, setup, loop, atSetup, atLoop, ordered, fragments⟩
    obtain ⟨rest, start⟩ := Option.isSome_iff_exists.mp start
    exact checkChars_eq_ok start atSetup atLoop ordered final balanced fragments

theorem closed_of_checkBrackets {s pending : List Char} {index : Nat}
    (passed : checkBrackets pending index (segments s) = .ok ()) : Closed s := by
  induction s using segment_induction generalizing pending index with
  | nil => exact .nil
  | char c s plain ih =>
    rw [segments_cons s plain] at passed
    rcases checkBrackets_char_cases c pending with ⟨due, step⟩ | fails
    · rw [step] at passed
      exact .char plain (ih passed)
    · exact absurd passed (fails _ _)
  | quoted literal s whole ih =>
    rw [segments_whole whole] at passed
    simp only [checkBrackets] at passed
    exact .quoted whole (ih passed)
  | unclosed c s quote unclosed =>
    rw [segments_unclosed quote unclosed] at passed
    simp [checkBrackets] at passed

/-- With its literals emptied an accepted script is judged by the marks that stand outside them. -/
theorem check_withoutQuoted_iff_firstOutside {script : String} (passed : check script = .ok ()) :
    check (String.ofList (withoutQuoted script.toList)) = .ok () ↔
      ∃ setup loop, FirstOutside "|S|" script.toList setup ∧ FirstOutside "|L|" script.toList loop ∧
        loop.length < setup.length ∧ checkFragments (withoutQuoted setup) = .ok () := by
  obtain ⟨start, final, balanced, -⟩ := checkChars_eq_ok_iff.mp passed
  have closed : Closed script.toList := closed_of_checkBrackets balanced
  have isStart : Mark "|I|" := mark_of_decide (by decide)
  rw [check, String.toList_ofList, checkChars_eq_ok_iff]
  constructor
  · rintro ⟨-, -, -, _, _, runSetup, runLoop, ordered, fragments⟩
    obtain ⟨setup, firstSetup, rfl⟩ := (setup_isMark.seek?_withoutQuoted_iff closed).mp runSetup
    obtain ⟨loop, firstLoop, rfl⟩ := (loop_isMark.seek?_withoutQuoted_iff closed).mp runLoop
    rw [withoutQuoted_withoutQuoted] at fragments
    exact ⟨setup, loop, firstSetup, firstLoop, (firstLoop.outside.length_lt_iff firstSetup.outside).mp ordered,
      fragments⟩
  · rintro ⟨setup, loop, firstSetup, firstLoop, ordered, fragments⟩
    refine ⟨by rw [isStart.strip?_withoutQuoted, start], by rw [getLast?_withoutQuoted, final],
      (checkBalanced_withoutQuoted_iff _).mpr balanced, withoutQuoted setup, withoutQuoted loop,
      (setup_isMark.seek?_withoutQuoted_iff closed).mpr ⟨setup, firstSetup, rfl⟩,
      (loop_isMark.seek?_withoutQuoted_iff closed).mpr ⟨loop, firstLoop, rfl⟩,
      (firstLoop.outside.length_lt_iff firstSetup.outside).mpr ordered, ?_⟩
    rwa [withoutQuoted_withoutQuoted]

/-- An accepted script is accepted with its literals emptied exactly where the first mark of the setup section and the
first one of the loop section that stand outside them are in order, and the fragments from there on pass. Where the
setup section is not looked for in a literal, a mark of the loop section outside them is all that it takes. -/
theorem check_withoutQuoted_iff {script : String} (passed : check script = .ok ()) :
    (check (String.ofList (withoutQuoted script.toList)) = .ok () ↔
      ∃ setup loop, FirstOutside "|S|" script.toList setup ∧ FirstOutside "|L|" script.toList loop ∧
        loop.length < setup.length ∧ checkFragments (withoutQuoted setup) = .ok ()) ∧
    ((∀ setup ∈ Text.seek? "|S|" script.toList, Outside script.toList setup) →
      (check (String.ofList (withoutQuoted script.toList)) = .ok () ↔
        ∃ rest, Outside script.toList ("|L|".toList ++ rest))) := by
  have judged := check_withoutQuoted_iff_firstOutside passed
  refine ⟨judged, fun setupOutside => judged.trans ⟨?_, ?_⟩⟩
  · rintro ⟨_, _, -, ⟨⟨rest, rfl⟩, outside, -⟩, -⟩
    exact ⟨rest, outside⟩
  · rintro ⟨rest, outside⟩
    obtain ⟨-, -, balanced, setup, first, atSetup, atLoop, ordered, fragments⟩ := checkChars_eq_ok_iff.mp passed
    obtain ⟨loop, isFirst⟩ := loop_isMark.exists_firstOutside (closed_of_checkBrackets balanced) outside
    obtain ⟨behind, rfl⟩ := isFirst.starts
    have later := loop_isMark.length_le_of_seek? atLoop isFirst.outside
    exact ⟨setup, _, setup_isMark.firstOutside_of_seek? atSetup (setupOutside setup atSetup), isFirst,
      later.trans_lt ordered, fragments⟩

/-- In the first script a mark of the loop section stands in a literal before the one that counts, in the second script
one of the setup section. -/
theorem check_withoutQuoted_iff_later_mark :
    check "|I||S|G(S,1,=,'|L|(')|L||" = .ok () ∧
      (∀ setup ∈ Text.seek? "|S|" "|I||S|G(S,1,=,'|L|(')|L||".toList,
        Outside "|I||S|G(S,1,=,'|L|(')|L||".toList setup) ∧
      check (String.ofList (withoutQuoted "|I||S|G(S,1,=,'|L|(')|L||".toList)) = .ok () ∧
      check "|I|R\"|S|\"|S||L||" = .ok () ∧
      ∃ setup loop, FirstOutside "|S|" "|I|R\"|S|\"|S||L||".toList setup ∧
        FirstOutside "|L|" "|I|R\"|S|\"|S||L||".toList loop ∧ loop.length < setup.length ∧
        checkFragments (withoutQuoted setup) = .ok () := by
  have passed : check "|I||S|G(S,1,=,'|L|(')|L||" = .ok () := rfl
  have flags : Mark "|I|" := mark_of_decide (by decide)
  have setup : Mark "|I||S|G(S,1,=," := mark_of_decide (by decide)
  have setupOutside : ∀ setup ∈ Text.seek? "|S|" "|I||S|G(S,1,=,'|L|(')|L||".toList,
      Outside "|I||S|G(S,1,=,'|L|(')|L||".toList setup := by
    rintro _ ⟨⟩
    exact ⟨"|I|".toList, rfl, .of_plain flags.plain⟩
  have closed : Closed ("|I||S|G(S,1,=,".toList ++ ("'|L|('".toList ++ [')'])) :=
    (Closed.append_iff (.of_plain setup.plain)).mpr (.quoted (by decide) (.char rfl .nil))
  have named : check "|I|R\"|S|\"|S||L||" = .ok () := rfl
  exact ⟨passed, setupOutside, ((check_withoutQuoted_iff passed).2 setupOutside).mpr ⟨['|'], _, rfl, closed⟩, named,
    (check_withoutQuoted_iff named).1.mp rfl⟩

/-- Both marks are looked for in the literals too, so that a script is accepted that has none outside them. -/
theorem check_quoted_marks :
    check "|I|R\"|S||L|\"|" = .ok () ∧
      String.ofList (withoutQuoted "|I|R\"|S||L|\"|".toList) = "|I|R\"\"|" ∧
      check "|I|R\"\"|" = .error .sections :=
  ⟨rfl, rfl, rfl⟩

end RobotScript.Script
