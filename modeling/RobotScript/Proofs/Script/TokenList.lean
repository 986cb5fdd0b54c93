import RobotScript.Proofs.Script.Sections

namespace RobotScript.Script

open Text

/-- Neither blanks nor bars stand at the ends of the text. -/
def BareTokens (text : String) : Prop := Bare (fun c => isBlank c || c == '|') text.toList

def bars (n : Nat) : String := String.ofList (List.replicate n '|')

/-- The blanks go first, and then the bars. -/
theorem BareTokens.tokenListCore_eq {text : String} (bare : BareTokens text) {before after : List Char}
    (isBefore : ∀ c ∈ before, isBlank c = true) (isAfter : ∀ c ∈ after, isBlank c = true) (m n : Nat) :
    tokenListCore (before ++ (List.replicate m '|' ++ (text.toList ++ List.replicate n '|') ++ after)) =
      text.toList := by
  have isBar {k : Nat} : ∀ c ∈ List.replicate k '|', (c == '|') = true ∧ isBlank c = false := by
    intro c member
    rw [List.eq_of_mem_replicate member]
    decide
  have noBlank : Bare isBlank text.toList := bare.mono fun c other => (Bool.or_eq_false_iff.mp other).1
  have noBar : Bare (· == '|') text.toList := bare.mono fun c other => (Bool.or_eq_false_iff.mp other).2
  have inside := noBlank.surround (fun c member => (isBar (k := m) c member).2)
    fun c member => (isBar (k := n) c member).2
  have trimmed : trim (before ++ (List.replicate m '|' ++ (text.toList ++ List.replicate n '|') ++ after)) =
      List.replicate m '|' ++ (text.toList ++ List.replicate n '|') :=
    inside.dropBoth isBefore isAfter
  rw [tokenListCore, trimmed]
  exact noBar.dropBoth (fun c member => (isBar c member).1) fun c member => (isBar c member).1

theorem readTokenList_sound {count : Nat} {s : List Char} {nodes : List Node}
    (run : readTokenList count s = .ok nodes) :
    ∃ ts, List.Forall₂ (Spells maxDepth) ts nodes ∧ ts ≠ [] ∧ s = join ts := by
  induction count generalizing s nodes with
  | zero => cases run
  | succ count ih =>
    obtain ⟨⟨node, s₁⟩, atToken, run⟩ := bind_eq_ok run
    obtain ⟨t, spelled, split⟩ := (readNode_reads maxDepth).sound atToken
    dsimp only at run
    split at run
    · rename_i empty
      cases run
      refine ⟨[t], .cons spelled .nil, by simp, ?_⟩
      rw [split, List.isEmpty_iff.mp empty, List.append_nil, join_singleton]
    · obtain ⟨s₂, bar, run⟩ := bind_eq_ok run
      obtain ⟨tail, atTail, run⟩ := bind_eq_ok run
      cases run
      obtain ⟨ts, all, nonempty, rfl⟩ := ih atTail
      obtain ⟨u, us, rfl⟩ := List.exists_cons_of_ne_nil nonempty
      refine ⟨t :: u :: us, .cons spelled all, by simp, ?_⟩
      rw [split, expect_eq_ok_iff.mp bar, join_cons_cons]
      rfl

theorem readTokenList_complete {ts : List (List Char)} {nodes : List Node}
    (spelled : List.Forall₂ (Spells maxDepth) ts nodes) (nonempty : ts ≠ []) {count : Nat}
    (room : ts.length ≤ count) : readTokenList count (join ts) = .ok nodes := by
  induction spelled generalizing count with
  | nil => exact absurd rfl nonempty
  | @cons t node ts nodes spelled all ih =>
    obtain ⟨count, rfl⟩ : ∃ k, count = k + 1 := Nat.exists_eq_succ_of_ne_zero (by simp at room; omega)
    cases all with
    | nil =>
      have atToken := (readNode_reads maxDepth).complete spelled (stops_nil _)
      rw [join_singleton, ← List.append_nil t]
      exact run_bind atToken _
    | @cons u next us nodes spelledNext all =>
      have fewer : (u :: us).length ≤ count := by simpa using room
      have tail := ih (by simp) fewer
      have atToken := (readNode_reads maxDepth).complete spelled (endsToken_bar (join (u :: us)))
      rw [join_cons_cons]
      refine (run_bind atToken _).trans ?_
      refine (expect_bind "|" _ _).trans ?_
      exact run_bind tail _

/-- A list of tokens is read exactly where it is one. -/
theorem readTokenList_eq_ok_iff {s : List Char} {nodes : List Node} :
    readTokenList (s.length + 1) s = .ok nodes ↔
      ∃ ts, List.Forall₂ (Spells maxDepth) ts nodes ∧ ts ≠ [] ∧ s = join ts := by
  constructor
  · exact readTokenList_sound
  · rintro ⟨ts, spelled, nonempty, rfl⟩
    exact readTokenList_complete spelled nonempty (length_le_join ts)

theorem parseTokens_eq_ok_iff_core {text : String} {s : List Char} (core : tokenListCore text.toList = s)
    (nonempty : s ≠ []) {nodes : List Node} :
    parseTokens text = .ok nodes ↔ ∃ ts, List.Forall₂ (Spells maxDepth) ts nodes ∧ ts ≠ [] ∧ s = join ts := by
  rw [← readTokenList_eq_ok_iff, parseTokens, core]
  simp only [List.isEmpty_iff, nonempty, if_false, located]
  cases readTokenList (s.length + 1) s <;> simp [Except.mapError]

/-- A script with nothing but a loop is spelled by the tokens of the loop. -/
theorem spellsProgram_loop_iff {s : List Char} {loop : List Node} :
    SpellsProgram ("|I||S||L|".toList ++ (s ++ ['|'])) ⟨[], [], loop⟩ ↔
      ∃ ts, List.Forall₂ (Spells maxDepth) ts loop ∧ s = join ts := by
  constructor
  · intro spelled
    generalize script : "|I||S||L|".toList ++ (s ++ ['|']) = t at spelled
    obtain @⟨_, ts, us, _, _, -, spelled, spelledLoop⟩ := spelled
    cases spelled
    exact ⟨us, spelledLoop, List.append_cancel_right (List.append_cancel_left script)⟩
  · rintro ⟨ts, spelled, rfl⟩
    have noFlags : ∀ flag ∈ ([] : List InitFlag), flag.Valid := by simp
    exact .mk noFlags .nil spelled

/-- Tokens are read alike by themselves and as the loop of a script, and bars and blanks around them do not
matter. -/
theorem parseTokens_eq_ok_iff_parse {text : String} (bare : BareTokens text) :
    (∀ nodes, parseTokens text = .ok nodes ↔ parse ("|I||S||L|" ++ text ++ "|") = .ok ⟨[], [], nodes⟩) ∧
      ∀ before after : String, (∀ c ∈ before.toList, isBlank c = true) → (∀ c ∈ after.toList, isBlank c = true) →
        ∀ m n, parseTokens (before ++ bars m ++ text ++ bars n ++ after) = parseTokens text := by
  have core : tokenListCore text.toList = text.toList := by
    simpa using @BareTokens.tokenListCore_eq text bare [] [] (by simp) (by simp) 0 0
  constructor
  · intro nodes
    have script : ("|I||S||L|" ++ text ++ "|").toList = "|I||S||L|".toList ++ (text.toList ++ ['|']) := by
      simp [String.toList_append]
    rw [parseTokens_eq_ok_iff_core core bare.nonempty, parse_eq_ok_iff, script]
    constructor
    · rintro ⟨ts, spelled, -, split⟩
      exact readProgram_complete (spellsProgram_loop_iff.mpr ⟨ts, spelled, split⟩)
    · intro run
      obtain ⟨ts, spelled, split⟩ := spellsProgram_loop_iff.mp (readProgram_sound run)
      refine ⟨ts, spelled, ?_, split⟩
      rintro rfl
      exact bare.nonempty split
  · intro before after isBefore isAfter m n
    have surrounded : tokenListCore (before ++ bars m ++ text ++ bars n ++ after).toList = text.toList := by
      simpa [bars, String.toList_append] using bare.tokenListCore_eq isBefore isAfter m n
    rw [parseTokens, parseTokens, surrounded, core]

/-- A quoted bar and brace between two tokens, with bars and an ideographic blank around them. -/
theorem parseTokens_eq_ok_iff_parse_quoted :
    BareTokens "G(S,1,=,'|\x7d')|D200" ∧
      parse "|I||S||L|G(S,1,=,'|\x7d')|D200|" = .ok ⟨[], [],
        [.assign ⟨.string, 1, by decide, by decide⟩ .set (readQuoted "'|\x7d'".toList), .delay 200]⟩ ∧
      parseTokens "\u3000||G(S,1,=,'|\x7d')|D200|\n" = parseTokens "G(S,1,=,'|\x7d')|D200" := by
  have bare : BareTokens "G(S,1,=,'|\x7d')|D200" :=
    ⟨by decide, fun c first => by cases first; decide, fun c last => by cases last; decide⟩
  have value : SpellsValue "'|\x7d'".toList (readQuoted "'|\x7d'".toList) := .quoted (by decide)
  have assign : Spells maxDepth "G(S,1,=,'|\x7d')".toList
      (.assign ⟨.string, 1, by decide, by decide⟩ .set (readQuoted "'|\x7d'".toList)) := by
    have token := SpellsAssign.mk ⟨.string, 1, by decide, by decide⟩ .set value
    rw [spells_eq]
    exact .assign token
  have delay : Spells maxDepth "D200".toList (.delay 200) := by
    rw [spells_eq]
    exact .word (by decide) (List.all_eq_true.mp (by decide))
  have core : tokenListCore "G(S,1,=,'|\x7d')|D200".toList = "G(S,1,=,'|\x7d')|D200".toList := by decide
  have tokens := (parseTokens_eq_ok_iff_core core bare.nonempty).mpr
    ⟨_, .cons assign (.cons delay .nil), by simp, by decide⟩
  obtain ⟨alike, surrounded⟩ := parseTokens_eq_ok_iff_parse bare
  refine ⟨bare, (alike _).mp tokens, ?_⟩
  exact surrounded "\u3000" "\n" (List.all_eq_true.mp (by decide)) (List.all_eq_true.mp (by decide)) 2 1

end RobotScript.Script
