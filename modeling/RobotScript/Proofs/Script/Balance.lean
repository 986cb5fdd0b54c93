import RobotScript.Proofs.Script.Opacity

namespace RobotScript.Script

/-- An opening bracket and the one that closes it. -/
inductive Pair : Char → Char → Prop
  | round : Pair '(' ')'
  | curly : Pair '{' '}'

theorem pair_iff {o c : Char} : Pair o c ↔ closer? o = some c := by
  constructor
  · rintro (_ | _) <;> rfl
  · intro pair
    rcases closer?_eq_some pair with ⟨rfl, rfl⟩ | ⟨rfl, rfl⟩
    · exact .round
    · exact .curly

theorem Pair.closer {o c : Char} (pair : Pair o c) : closer? c = none ∧ isCloser c = true := by
  cases pair <;> decide

theorem Pair.not_isQuote {o c : Char} (pair : Pair o c) : Quoted.isQuote c = false := by cases pair <;> decide

theorem Pair.opener_unique {o o' c : Char} (pair : Pair o c) (pair' : Pair o' c) : o = o' := by
  cases pair <;> cases pair' <;> rfl

/-- A sequence of brackets that all close, each after all brackets between it and its partner. -/
inductive WellBracketed : List Char → Prop
  | nil : WellBracketed []
  | enclose {o c : Char} {v w : List Char} : Pair o c → WellBracketed v → WellBracketed w →
      WellBracketed (o :: (v ++ c :: w))

theorem WellBracketed.append {v w : List Char} (first : WellBracketed v) (second : WellBracketed w) :
    WellBracketed (v ++ w) := by
  induction first with
  | nil => exact second
  | @enclose o c u v pair inner _ _ ih =>
    rw [List.cons_append, List.append_assoc]
    exact .enclose pair inner ih

/-- The innermost bracket that a sequence leaves open: all brackets behind it close. -/
def Innermost (o : Char) (w : List Char) : Prop :=
  (∃ c, Pair o c) ∧ ∃ u v, w = u ++ o :: v ∧ WellBracketed v

section Due

variable {o c : Char} {pending w : List Char}

theorem due?_open (pair : Pair o c) (pending : List Char) : due? pending o = some (c :: pending) := by
  simp only [due?, pair_iff.mp pair]

theorem due?_close_iff {rest : List Char} (pair : Pair o c) : due? pending c = some rest ↔ pending = c :: rest := by
  simp only [due?, pair.closer]
  cases pending with
  | nil => simp
  | cons next pending =>
    by_cases same : next = c
    · simp [same]
    · simp [same]

theorem due?_other (other : isBracket c = false) (pending : List Char) : due? pending c = some pending := by
  simp [due?, neutral_of_not_isBracket other]

theorem WellBracketed.foldlM_due? (bracketed : WellBracketed w) (pending : List Char) :
    w.foldlM due? pending = some pending := by
  induction bracketed generalizing pending with
  | nil => rfl
  | @enclose o c v w pair _ _ inner rest =>
    rw [List.foldlM_cons, due?_open pair]
    change (v ++ c :: w).foldlM due? (c :: pending) = _
    rw [List.foldlM_append, inner]
    change (c :: w).foldlM due? (c :: pending) = _
    rw [List.foldlM_cons, (due?_close_iff pair).mpr rfl]
    exact rest pending

theorem isBracket_cases (bracket : isBracket c = true) : (∃ closer, Pair c closer) ∨ ∃ o, Pair o c := by
  simp only [isBracket, decide_eq_true_eq, List.mem_cons, List.not_mem_nil, or_false] at bracket
  rcases bracket with rfl | rfl | rfl | rfl
  · exact .inl ⟨_, .round⟩
  · exact .inr ⟨_, .round⟩
  · exact .inl ⟨_, .curly⟩
  · exact .inr ⟨_, .curly⟩

theorem exists_pair_of_due?_eq_none (stop : due? pending c = none) : ∃ o, Pair o c := by
  cases bracket : isBracket c with
  | false => simp [due?_other bracket] at stop
  | true =>
    rcases isBracket_cases bracket with ⟨closer, pair⟩ | closes
    · simp [due?_open pair] at stop
    · exact closes

/-- A sequence of brackets and the closing ones that it leaves due, the next one first. -/
inductive Leaves : List Char → List Char → Prop
  | nothing {w : List Char} : WellBracketed w → Leaves w []
  | next {o c : Char} {u v pending : List Char} : Leaves u pending → Pair o c → WellBracketed v →
      Leaves (u ++ o :: v) (c :: pending)

theorem Leaves.append {u v pending : List Char} (leaves : Leaves u pending) (bracketed : WellBracketed v) :
    Leaves (u ++ v) pending := by
  cases leaves with
  | nothing before => exact .nothing (before.append bracketed)
  | next leaves pair inner =>
    rw [List.append_assoc, List.cons_append]
    exact .next leaves pair (inner.append bracketed)

/-- Brackets that can be followed to their end leave due what is due there. -/
theorem leaves_of_foldlM_due? (brackets : ∀ c ∈ w, isBracket c = true) (run : w.foldlM due? [] = some pending) :
    Leaves w pending := by
  induction w using List.reverseRecOn generalizing pending with
  | nil =>
    cases run
    exact .nothing .nil
  | append_singleton w c ih =>
    obtain ⟨others, last⟩ := List.forall_mem_append.mp brackets
    rw [List.foldlM_append] at run
    obtain ⟨before, runBefore, step⟩ := Option.bind_eq_some_iff.mp run
    have step : due? before c = some pending := by simpa using step
    have leaves := ih others runBefore
    rcases isBracket_cases (last c (List.mem_singleton_self c)) with ⟨closer, pair⟩ | ⟨o, pair⟩
    · rw [due?_open pair] at step
      cases step
      exact .next leaves pair .nil
    · cases (due?_close_iff pair).mp step
      cases leaves with
      | @next o' _ u v _ leaves pair' inner =>
        rw [List.append_assoc]
        exact leaves.append (.enclose pair' inner .nil)

theorem wellBracketed_iff (brackets : ∀ c ∈ w, isBracket c = true) :
    WellBracketed w ↔ w.foldlM due? [] = some [] := by
  refine ⟨fun bracketed => bracketed.foldlM_due? [], fun run => ?_⟩
  cases leaves_of_foldlM_due? brackets run with
  | nothing bracketed => exact bracketed

theorem exists_innermost (brackets : ∀ c ∈ w, isBracket c = true) (run : w.foldlM due? [] = some (c :: pending)) :
    ∃ o, Pair o c ∧ Innermost o w := by
  cases leaves_of_foldlM_due? brackets run with
  | next leaves pair inner => exact ⟨_, pair, ⟨c, pair⟩, _, _, rfl, inner⟩

/-- The innermost open bracket is the one whose partner is due next. -/
theorem innermost_iff (brackets : ∀ c ∈ w, isBracket c = true) (run : w.foldlM due? [] = some pending)
    (pair : Pair o c) : Innermost o w ↔ ∃ rest, pending = c :: rest := by
  constructor
  · rintro ⟨-, u, v, rfl, inner⟩
    rw [List.foldlM_append] at run
    obtain ⟨before, -, run⟩ := Option.bind_eq_some_iff.mp run
    rw [List.foldlM_cons, due?_open pair] at run
    change v.foldlM due? (c :: before) = some pending at run
    rw [inner.foldlM_due?] at run
    exact ⟨before, (Option.some.inj run).symm⟩
  · rintro ⟨rest, rfl⟩
    obtain ⟨o', pair', innermost⟩ := exists_innermost brackets run
    rwa [pair.opener_unique pair']

end Due

/-- A text cut from left to right into complete quoted literals and characters that are no quotes, and those
characters. -/
inductive Cut : List Char → List Char → Prop
  | nil : Cut [] []
  | char {c : Char} {s outside : List Char} : Quoted.isQuote c = false → Cut s outside → Cut (c :: s) (c :: outside)
  | literal {quote : Char} {inner s outside : List Char} : Quoted.isQuote quote = true → Quoted.Closes quote inner →
      Cut s outside → Cut (quote :: (inner ++ s)) outside

namespace Cut

variable {a b s outside other : List Char} {c : Char}

theorem append (first : Cut a outside) (second : Cut b other) : Cut (a ++ b) (outside ++ other) := by
  induction first with
  | nil => exact second
  | char plain _ ih => exact .char plain ih
  | literal isQuote closes _ ih =>
    rw [List.cons_append, List.append_assoc]
    exact .literal isQuote closes ih

theorem char_iff (plain : Quoted.isQuote c = false) :
    Cut (c :: s) outside ↔ ∃ rest, outside = c :: rest ∧ Cut s rest := by
  constructor
  · intro cut
    cases cut with
    | char _ cut => exact ⟨_, rfl, cut⟩
    | literal isQuote => simp [plain] at isQuote
  · rintro ⟨rest, rfl, cut⟩
    exact .char plain cut

theorem quote_iff (isQuote : Quoted.isQuote c = true) :
    Cut (c :: s) outside ↔ ∃ inner rest, s = inner ++ rest ∧ Quoted.Closes c inner ∧ Cut rest outside := by
  constructor
  · intro cut
    cases cut with
    | char plain => simp [isQuote] at plain
    | literal _ closes cut => exact ⟨_, _, rfl, closes, cut⟩
  · rintro ⟨inner, rest, rfl, closes, cut⟩
    exact .literal isQuote closes cut

/-- A text is cut in one way only, so that what follows a piece that is cut is cut too. -/
theorem of_append (whole : Cut (a ++ b) other) (first : Cut a outside) :
    ∃ rest, other = outside ++ rest ∧ Cut b rest := by
  induction first generalizing other with
  | nil => exact ⟨other, rfl, whole⟩
  | char plain _ ih =>
    obtain ⟨rest, rfl, cut⟩ := (char_iff plain).mp whole
    obtain ⟨behind, rfl, second⟩ := ih cut
    exact ⟨behind, rfl, second⟩
  | @literal quote inner s _ isQuote closes _ ih =>
    rw [List.cons_append, List.append_assoc] at whole
    obtain ⟨inner', rest, split, closes', cut⟩ := (quote_iff isQuote).mp whole
    have found := closes.close?_append (Quoted.quote_ne_backslash isQuote) (s ++ b)
    rw [split, closes'.close?_append (Quoted.quote_ne_backslash isQuote)] at found
    cases found
    exact ih cut

theorem unique (first : Cut s outside) (second : Cut s other) : other = outside := by
  rw [← List.append_nil s] at second
  obtain ⟨rest, rfl, none⟩ := second.of_append first
  cases none
  exact List.append_nil outside

end Cut

/-- What is wrong at a place outside the literals of a text, with the number of bytes before it: a quote that nothing
closes, or a closing bracket that is not the partner of the innermost open one. -/
inductive Defect (s : List Char) : Nat → Flaw → Prop
  | unclosed {before outside rest : List Char} {quote : Char} : s = before ++ quote :: rest → Cut before outside →
      Quoted.isQuote quote = true → (∀ inner behind, rest = inner ++ behind → ¬Quoted.Closes quote inner) →
      Defect s (Text.byteSize before) (.unclosedQuote (Text.byteSize before))
  | unmatched {before outside rest : List Char} {o c : Char} : s = before ++ c :: rest → Cut before outside →
      Pair o c → ¬Innermost o (outside.filter isBracket) →
      Defect s (Text.byteSize before) (.unbalanced (Text.byteSize before))

section Places

variable {before before' rest rest' : List Char} {c c' : Char}

/-- A place with fewer bytes before it than a piece at the front of the text lies within that piece. -/
theorem exists_within_of_byteSize_lt (same : before ++ rest = before' ++ c :: rest')
    (earlier : Text.byteSize before' < Text.byteSize before) :
    ∃ more, before = before' ++ c :: more ∧ rest' = more ++ rest := by
  rcases List.append_eq_append_iff.mp same with ⟨more, rfl, behind⟩ | ⟨more, rfl, behind⟩
  · rw [byteSize_append] at earlier
    omega
  · cases more with
    | nil => simp at earlier
    | cons d more =>
      cases behind
      exact ⟨more, rfl, rfl⟩

theorem eq_of_byteSize_eq (same : before ++ c :: rest = before' ++ c' :: rest')
    (place : Text.byteSize before = Text.byteSize before') : before = before' ∧ c = c' ∧ rest = rest' := by
  obtain ⟨front, behind⟩ := append_inj_of_byteSize same place
  obtain ⟨rfl, rfl⟩ := List.cons.inj behind
  exact ⟨front, rfl, rfl⟩

end Places

section Runs

variable {before outside pending rest : List Char}

/-- Characters that are no brackets change nothing. -/
theorem foldlM_due?_filter (outside pending : List Char) :
    (outside.filter isBracket).foldlM due? pending = outside.foldlM due? pending := by
  induction outside generalizing pending with
  | nil => rfl
  | cons c outside ih =>
    rw [List.foldlM_cons]
    by_cases bracket : isBracket c = true
    · rw [List.filter_cons_of_pos bracket, List.foldlM_cons]
      exact congrArg _ (funext ih)
    · rw [List.filter_cons_of_neg bracket, due?_other (by simpa using bracket), ih]
      rfl

theorem isBracket_of_mem_filter {outside : List Char} : ∀ c ∈ outside.filter isBracket, isBracket c = true :=
  fun _ member => (List.mem_filter.mp member).2

theorem innermost_filter_iff {o c : Char} (run : outside.foldlM due? [] = some pending) (pair : Pair o c) :
    Innermost o (outside.filter isBracket) ↔ ∃ rest, pending = c :: rest := by
  rw [← foldlM_due?_filter] at run
  exact innermost_iff isBracket_of_mem_filter run pair

theorem wellBracketed_filter_iff :
    WellBracketed (outside.filter isBracket) ↔ outside.foldlM due? [] = some [] := by
  rw [wellBracketed_iff isBracket_of_mem_filter, foldlM_due?_filter]

/-- Up to where the brackets can be followed there is no defect. -/
theorem Defect.byteSize_le {n : Nat} {flaw : Flaw} (defect : Defect (before ++ rest) n flaw)
    (cut : Cut before outside) (run : outside.foldlM due? [] = some pending) : Text.byteSize before ≤ n := by
  by_contra early
  cases defect with
  | unclosed same cut' isQuote unclosed =>
    obtain ⟨more, rfl, rfl⟩ := exists_within_of_byteSize_lt same (by omega)
    obtain ⟨_, -, behind⟩ := cut.of_append cut'
    obtain ⟨inner, after, rfl, closes, -⟩ := (Cut.quote_iff isQuote).mp behind
    exact unclosed inner (after ++ rest) (by simp) closes
  | unmatched same cut' pair unmatched =>
    obtain ⟨more, rfl, rfl⟩ := exists_within_of_byteSize_lt same (by omega)
    obtain ⟨_, rfl, behind⟩ := cut.of_append cut'
    obtain ⟨_, rfl, -⟩ := (Cut.char_iff pair.not_isQuote).mp behind
    rw [List.foldlM_append] at run
    obtain ⟨due, before, step⟩ := Option.bind_eq_some_iff.mp run
    rw [List.foldlM_cons] at step
    obtain ⟨_, closed, -⟩ := Option.bind_eq_some_iff.mp step
    exact unmatched ((innermost_filter_iff before pair).mpr ⟨_, (due?_close_iff pair).mp closed⟩)

theorem Defect.byteSize_lt {s : List Char} {n : Nat} {flaw : Flaw} (defect : Defect s n flaw) :
    n < Text.byteSize s := by
  cases defect with
  | @unclosed before _ rest c same | @unmatched before _ rest _ c same =>
    have positive := byteSize_cons_pos c rest
    rw [same, byteSize_append]
    omega

/-- There is at most one defect at a place. -/
theorem Defect.unique {s : List Char} {n : Nat} {flaw other : Flaw} (defect : Defect s n flaw)
    (second : Defect s n other) : flaw = other := by
  have clash {quote o c : Char} (isQuote : Quoted.isQuote quote = true) (pair : Pair o c) : quote ≠ c := by
    rintro rfl
    simp [pair.not_isQuote] at isQuote
  generalize place : n = m at second
  cases defect with
  | unclosed same _ isQuote _ =>
    cases second with
    | unclosed => rw [place]
    | unmatched same' _ pair _ =>
      obtain ⟨-, equal, -⟩ := eq_of_byteSize_eq (same.symm.trans same') place
      exact absurd equal (clash isQuote pair)
  | unmatched same _ pair _ =>
    cases second with
    | unmatched => rw [place]
    | unclosed same' _ isQuote _ =>
      obtain ⟨-, equal, -⟩ := eq_of_byteSize_eq (same.symm.trans same') place
      exact absurd equal.symm (clash isQuote pair)

/-- What the check of a text can come to: the brackets can be followed to its end, where something is due or nothing, or
there is a first defect. -/
inductive Verdict (s : List Char) : Except Flaw Unit → Prop
  | balanced {outside : List Char} : Cut s outside → outside.foldlM due? [] = some [] → Verdict s (.ok ())
  | unfinished {outside pending : List Char} {c : Char} : Cut s outside →
      outside.foldlM due? [] = some (c :: pending) → Verdict s (.error .missingCloser)
  | defective {n : Nat} {flaw : Flaw} : Defect s n flaw → (∀ m other, Defect s m other → n ≤ m) →
      Verdict s (.error flaw)

theorem verdict_checkBrackets (s : List Char) (cut : Cut before outside)
    (run : outside.foldlM due? [] = some pending) :
    Verdict (before ++ s) (checkBrackets pending (Text.byteSize before) (segments s)) := by
  -- Along the segments, what is due is what the brackets of the text before have left due.
  induction s using segment_induction generalizing before outside pending with
  | nil =>
    rw [List.append_nil]
    cases pending with
    | nil => exact .balanced cut run
    | cons c pending => exact .unfinished cut run
  | char c s plain ih =>
    have extended : (outside ++ [c]).foldlM due? [] = due? pending c := by
      rw [List.foldlM_append, run]
      exact bind_pure (due? pending c)
    rw [segments_cons s plain, checkBrackets_char]
    cases step : due? pending c with
    | some due =>
      have later := ih (cut.append (.char plain .nil)) (extended.trans step)
      rw [List.append_assoc, byteSize_append] at later
      exact later
    | none =>
      obtain ⟨o, pair⟩ := exists_pair_of_due?_eq_none step
      refine .defective (.unmatched rfl cut pair fun innermost => ?_) fun m other defect => defect.byteSize_le cut run
      obtain ⟨due, rfl⟩ := (innermost_filter_iff run pair).mp innermost
      rw [(due?_close_iff pair).mpr rfl] at step
      cases step
  | quoted literal s whole ih =>
    obtain ⟨quote, inner, isQuote, closes, rfl⟩ := Quoted.isWhole_iff.mp whole
    have one : Cut (quote :: inner) [] := (Cut.quote_iff isQuote).mpr ⟨inner, [], by simp, closes, .nil⟩
    have later := ih (cut.append one) (by rwa [List.append_nil])
    rw [List.append_assoc, byteSize_append] at later
    rw [segments_whole whole, checkBrackets]
    exact later
  | unclosed c s quote unclosed =>
    rw [segments_unclosed quote unclosed, checkBrackets]
    refine .defective (.unclosed rfl cut quote ?_) fun m other defect => defect.byteSize_le cut run
    rintro inner behind rfl closes
    have found : Quoted.split? (c :: (inner ++ behind)) = some (c :: inner, behind) :=
      Quoted.split?_eq_some_iff.mpr ⟨⟨c, inner, quote, closes, rfl⟩, rfl⟩
    rw [unclosed] at found
    cases found

theorem verdict_checkBalanced (s : List Char) : Verdict s (checkBalanced s) := verdict_checkBrackets s .nil rfl

/-- A text whose brackets can be followed to its end has no defect. -/
theorem not_defect_of_cut {s : List Char} (cut : Cut s outside) (run : outside.foldlM due? [] = some pending) (n : Nat)
    (flaw : Flaw) : ¬Defect s n flaw := by
  intro defect
  have inside := defect.byteSize_lt
  rw [← List.append_nil s] at defect
  have late := defect.byteSize_le cut run
  omega

/-- A text has one verdict only. -/
theorem Verdict.unique {s : List Char} {result other : Except Flaw Unit} (verdict : Verdict s result)
    (second : Verdict s other) : result = other := by
  cases verdict with
  | balanced cut run =>
    cases second with
    | balanced => rfl
    | unfinished cut' run' =>
      rw [cut.unique cut', run] at run'
      cases run'
    | defective defect => exact absurd defect (not_defect_of_cut cut run _ _)
  | unfinished cut run =>
    cases second with
    | balanced cut' run' =>
      rw [cut.unique cut', run] at run'
      cases run'
    | unfinished => rfl
    | defective defect => exact absurd defect (not_defect_of_cut cut run _ _)
  | @defective n flaw defect first =>
    cases second with
    | balanced cut run => exact absurd defect (not_defect_of_cut cut run _ _)
    | unfinished cut run => exact absurd defect (not_defect_of_cut cut run _ _)
    | @defective m flaw' defect' first' =>
      have place : n = m := Nat.le_antisymm (first m flaw' defect') (first' n flaw defect)
      subst place
      rw [defect.unique defect']

theorem checkBalanced_eq_iff {s : List Char} {result : Except Flaw Unit} :
    checkBalanced s = result ↔ Verdict s result :=
  ⟨fun same => same ▸ verdict_checkBalanced s, (verdict_checkBalanced s).unique⟩

theorem verdict_ok_iff {s : List Char} :
    Verdict s (.ok ()) ↔ ∃ outside, Cut s outside ∧ WellBracketed (outside.filter isBracket) := by
  constructor
  · intro verdict
    cases verdict with
    | balanced cut run => exact ⟨_, cut, wellBracketed_filter_iff.mpr run⟩
  · rintro ⟨outside, cut, bracketed⟩
    exact .balanced cut (wellBracketed_filter_iff.mp bracketed)

theorem verdict_missingCloser_iff {s : List Char} :
    Verdict s (.error .missingCloser) ↔
      (∀ n flaw, ¬Defect s n flaw) ∧ ∃ outside o, Cut s outside ∧ Innermost o (outside.filter isBracket) := by
  constructor
  · intro verdict
    cases verdict with
    | unfinished cut run =>
      refine ⟨not_defect_of_cut cut run, ?_⟩
      rw [← foldlM_due?_filter] at run
      obtain ⟨o, -, innermost⟩ := exists_innermost isBracket_of_mem_filter run
      exact ⟨_, o, cut, innermost⟩
    | defective defect => cases defect
  · -- Without a defect the brackets can be followed to the end, where the open one is due.
    rintro ⟨none, outside, o, cut, ⟨c, pair⟩, innermost⟩
    have verdict := verdict_checkBalanced s
    generalize checkBalanced s = result at verdict
    cases verdict with
    | balanced cut' run =>
      rw [cut.unique cut'] at run
      obtain ⟨rest, nothing⟩ := (innermost_filter_iff run pair).mp ⟨⟨c, pair⟩, innermost⟩
      cases nothing
    | unfinished cut' run => exact .unfinished cut' run
    | defective defect => exact absurd defect (none _ _)

theorem verdict_error_iff {s : List Char} {flaw : Flaw} :
    Verdict s (.error flaw) ↔
      (∃ n, Defect s n flaw ∧ ∀ m other, Defect s m other → n ≤ m) ∨
        flaw = .missingCloser ∧ Verdict s (.error .missingCloser) := by
  constructor
  · intro verdict
    cases verdict with
    | unfinished cut run => exact .inr ⟨rfl, .unfinished cut run⟩
    | defective defect first => exact .inl ⟨_, defect, first⟩
  · rintro (⟨n, defect, first⟩ | ⟨rfl, verdict⟩)
    · exact .defective defect first
    · exact verdict

end Runs

/-- The check of the brackets passes just the texts that can be cut into literals and other characters with
well-bracketed brackets among these. Otherwise it reports the first defect of the text with the bytes before it, and
where there is none, that a bracket is left open. -/
theorem checkBalanced_verdict (s : List Char) :
    (checkBalanced s = .ok () ↔ ∃ outside, Cut s outside ∧ WellBracketed (outside.filter isBracket)) ∧
      ∀ flaw, checkBalanced s = .error flaw ↔
        (∃ n, Defect s n flaw ∧ ∀ m other, Defect s m other → n ≤ m) ∨
        flaw = .missingCloser ∧ (∀ n other, ¬Defect s n other) ∧
          ∃ outside o, Cut s outside ∧ Innermost o (outside.filter isBracket) := by
  refine ⟨checkBalanced_eq_iff.trans verdict_ok_iff, fun flaw => ?_⟩
  rw [checkBalanced_eq_iff, verdict_error_iff, verdict_missingCloser_iff]

/-- Of two defects the first is reported, though a bracket is open before it. -/
example : checkBalanced "(')'\x7d\"\x7b".toList = .error (.unbalanced 4) := rfl

end RobotScript.Script
