import RobotScript.Proofs.Program.InitFlag
import RobotScript.Proofs.Script.Reading

namespace RobotScript.Script

/-- The bar that a list needs in front of its next item. -/
def separator (first : Bool) : List Char := if first then [] else ['|']

/-- A list of which some items may stand before these. -/
def listed (first : Bool) : List (List Char) → List Char
  | [] => []
  | t :: ts => separator first ++ (t ++ barred ts)

theorem listed_true (ts : List (List Char)) : listed true ts = join ts := by
  cases ts with
  | nil => rfl
  | cons t ts => exact (join_cons t ts).symm

theorem listed_false (ts : List (List Char)) : listed false ts = barred ts := by
  cases ts <;> rfl

theorem listed_cons (first : Bool) (t : List Char) (ts : List (List Char)) :
    listed first (t :: ts) = separator first ++ (t ++ listed false ts) := by
  rw [listed_false, listed]

theorem skipBar_eq_ok_iff {first : Bool} {s rest : List Char} :
    skipBar first s = .ok rest ↔ s = separator first ++ rest := by
  cases first with
  | true => simp [skipBar, separator]
  | false => exact expect_eq_ok_iff

theorem strip?_eq_none {literal : String} {s : List Char}
    (other : ∀ rest, s ≠ literal.toList ++ rest) : Text.strip? literal s = none := by
  cases found : Text.strip? literal s with
  | none => rfl
  | some rest => exact absurd (Text.strip?_eq_some_iff.mp found) (other rest)

theorem readFlags_sound {count : Nat} {first : Bool} {s rest : List Char} {flags : List InitFlag}
    (run : readFlags count first s = .ok (flags, rest)) :
    (∀ flag ∈ flags, flag.Valid) ∧ s = listed first (flags.map InitFlag.chars) ++ rest := by
  induction count generalizing first s flags with
  | zero => cases run
  | succ count ih =>
    unfold readFlags at run
    split at run
    · cases run
      exact ⟨by simp, rfl⟩
    · obtain ⟨s₁, bar, run⟩ := bind_eq_ok run
      dsimp only at run
      split at run
      · cases run
      · rename_i flag found
        obtain ⟨⟨tail, s₂⟩, atTail, run⟩ := bind_eq_ok run
        cases run
        obtain ⟨valid, split⟩ := InitFlag.of_ofChars? found
        obtain ⟨allValid, splitTail⟩ := ih atTail
        refine ⟨List.forall_mem_cons.mpr ⟨valid, allValid⟩, ?_⟩
        rw [skipBar_eq_ok_iff.mp bar, List.map_cons, listed_cons, ← split]
        simp only [List.append_assoc]
        rw [← splitTail, List.takeWhile_append_dropWhile]

/-- A flag does not look like the mark of a section. -/
theorem strip?_mark_flag {literal : String} {m : Char} (isMark : literal.toList = ['|', m, '|'])
    {flag : InitFlag} (valid : flag.Valid) (other : flag.chars ≠ [m]) (first : Bool) {rest : List Char}
    (stop : Text.Stops (· != '|') rest) :
    Text.strip? literal (separator first ++ (flag.chars ++ rest)) = none := by
  have run := Text.takeWhile_append_of_stops (InitFlag.bar_not_mem_chars valid) stop
  refine strip?_eq_none fun after same => ?_
  rw [isMark] at same
  cases first with
  | true =>
    rw [show flag.chars ++ rest = '|' :: m :: '|' :: after from same] at run
    exact flag.chars_ne_nil run.symm
  | false =>
    rw [show flag.chars ++ rest = m :: '|' :: after from (List.cons.inj same).2, List.takeWhile_cons] at run
    split at run
    · exact other run.symm
    · exact flag.chars_ne_nil run.symm

theorem readFlags_complete {flags : List InitFlag} (valid : ∀ flag ∈ flags, flag.Valid) {count : Nat}
    (room : flags.length < count) (first : Bool) (rest : List Char) :
    readFlags count first (listed first (flags.map InitFlag.chars) ++ ("|S|".toList ++ rest)) =
      .ok (flags, "|S|".toList ++ rest) := by
  induction flags generalizing count first with
  | nil =>
    obtain ⟨count, rfl⟩ : ∃ k, count = k + 1 := Nat.exists_eq_succ_of_ne_zero (by omega)
    simp only [List.map_nil, listed, List.nil_append, readFlags, Text.strip?_append, Option.isSome_some,
      if_true]
  | cons flag flags ih =>
    obtain ⟨count, rfl⟩ : ∃ k, count = k + 1 := Nat.exists_eq_succ_of_ne_zero (by omega)
    obtain ⟨validFlag, validTail⟩ := List.forall_mem_cons.mp valid
    have fewer : flags.length < count := by simpa using room
    have tail := ih validTail fewer false
    have inside := InitFlag.bar_not_mem_chars validFlag
    have stop : Text.Stops (· != '|')
        (listed false (flags.map InitFlag.chars) ++ ("|S|".toList ++ rest)) := by
      rw [listed_false]
      cases flags <;> exact Text.stops_cons _ rfl
    rw [List.map_cons, listed_cons, List.append_assoc, List.append_assoc]
    unfold readFlags
    rw [strip?_mark_flag rfl validFlag InitFlag.chars_ne_section.1 _ stop]
    simp only [Option.isSome_none, Bool.false_eq_true, if_false]
    refine (run_bind (skipBar_eq_ok_iff.mpr rfl) _).trans ?_
    simp only [Text.takeWhile_append_of_stops inside stop, Text.dropWhile_append_of_stops inside stop,
      InitFlag.ofChars?_chars validFlag]
    exact run_bind tail _

theorem endsToken_listed (ts : List (List Char)) (rest : List Char) :
    EndsToken (listed false ts ++ '|' :: rest) := by
  rw [listed_false]
  cases ts <;> exact endsToken_bar _

theorem listed_ne_bar {first : Bool} {t : List Char} (starts : ∃ c u, t = c :: u ∧ isCommandChar c = true)
    (rest : List Char) : separator first ++ (t ++ rest) ≠ ['|'] := by
  obtain ⟨c, u, rfl, inWord⟩ := starts
  intro same
  cases first with
  | true =>
    cases (List.cons.inj same).1
    exact absurd inWord (by decide)
  | false => exact absurd (List.cons.inj same).2 (by simp)

theorem readLoop_sound {count : Nat} {first : Bool} {s : List Char} {nodes : List Node}
    (run : readLoop count first s = .ok nodes) :
    ∃ ts, List.Forall₂ (Spells maxDepth) ts nodes ∧ s = listed first ts ++ ['|'] := by
  induction count generalizing first s nodes with
  | zero => cases run
  | succ count ih =>
    unfold readLoop at run
    split at run
    · rename_i last
      cases run
      exact ⟨[], .nil, last⟩
    · obtain ⟨s₁, bar, run⟩ := bind_eq_ok run
      obtain ⟨⟨node, s₂⟩, atToken, run⟩ := bind_eq_ok run
      obtain ⟨tail, atTail, run⟩ := bind_eq_ok run
      cases run
      obtain ⟨t, spelled, split⟩ := (readNode_reads maxDepth).sound atToken
      obtain ⟨ts, spelledTail, splitTail⟩ := ih atTail
      refine ⟨t :: ts, .cons spelled spelledTail, ?_⟩
      rw [skipBar_eq_ok_iff.mp bar, split, splitTail, listed_cons]
      simp

theorem readLoop_complete {ts : List (List Char)} {nodes : List Node}
    (spelled : List.Forall₂ (Spells maxDepth) ts nodes) {count : Nat} (room : ts.length < count)
    (first : Bool) : readLoop count first (listed first ts ++ ['|']) = .ok nodes := by
  induction spelled generalizing count first with
  | nil =>
    obtain ⟨count, rfl⟩ : ∃ k, count = k + 1 := Nat.exists_eq_succ_of_ne_zero (by omega)
    simp [listed, readLoop]
  | @cons t node ts nodes spelled _ ih =>
    obtain ⟨count, rfl⟩ : ∃ k, count = k + 1 := Nat.exists_eq_succ_of_ne_zero (by omega)
    have fewer : ts.length < count := by simpa using room
    have tail := ih fewer false
    have atToken := (readNode_reads maxDepth).complete spelled (endsToken_listed ts [])
    rw [listed_cons, List.append_assoc, List.append_assoc]
    unfold readLoop
    rw [if_neg (listed_ne_bar (spells_starts spelled) _)]
    refine (run_bind (skipBar_eq_ok_iff.mpr rfl) _).trans ?_
    refine (run_bind atToken _).trans ?_
    exact run_bind tail _

/-- A second bar at the end is no loop section: no token stands between the two. -/
theorem readLoop_two_bars {ts : List (List Char)} {nodes : List Node}
    (spelled : List.Forall₂ (Spells maxDepth) ts nodes) (count : Nat) (first : Bool) (found : List Node) :
    readLoop count first (listed first ts ++ ['|', '|']) ≠ .ok found := by
  intro run
  induction spelled generalizing count first found with
  | nil =>
    cases count with
    | zero => cases run
    | succ count =>
      obtain ⟨s₁, bar, run⟩ := bind_eq_ok run
      obtain ⟨⟨node, s₂⟩, atToken, _⟩ := bind_eq_ok run
      obtain ⟨t, spelled, split⟩ := (readNode_reads maxDepth).sound atToken
      obtain ⟨c, u, rfl, inWord⟩ := spells_starts spelled
      have same := skipBar_eq_ok_iff.mp bar
      rw [split] at same
      have isBar : c = '|' := by
        cases first with
        | true => exact (List.cons.inj same).1.symm
        | false => exact (List.cons.inj (List.cons.inj same).2).1.symm
      subst isBar
      exact absurd inWord (by decide)
  | @cons t node ts nodes spelled _ ih =>
    cases count with
    | zero => cases run
    | succ count =>
      have atToken := (readNode_reads maxDepth).complete spelled (endsToken_listed ts ['|'])
      rw [listed_cons, List.append_assoc, List.append_assoc] at run
      unfold readLoop at run
      rw [if_neg (listed_ne_bar (spells_starts spelled) _)] at run
      obtain ⟨s₁, bar, run⟩ := bind_eq_ok run
      cases List.append_cancel_left (skipBar_eq_ok_iff.mp bar)
      obtain ⟨⟨other, s₂⟩, again, run⟩ := bind_eq_ok run
      cases atToken.symm.trans again
      obtain ⟨tail, atTail, _⟩ := bind_eq_ok run
      exact ih count false tail atTail

/-- The command that looks like the mark of the loop section. -/
def isBoundary : Node → Bool
  | .command token => token == "L"
  | _ => false

theorem isBoundary_iff {node : Node} : isBoundary node = true ↔ node = .command "L" := by
  cases node <;> simp [isBoundary]

theorem isBoundary_iff_spelled {depth : Nat} {t : List Char} {node : Node}
    (spelled : Spells depth t node) : isBoundary node = true ↔ t = ['L'] := by
  rw [isBoundary_iff]
  rw [spells_eq] at spelled
  constructor
  · intro same
    cases spelled with
    | word _ _ => rw [← chars_ofWord t, same, Node.chars]; rfl
    | assign spelled => cases spelled; cases same
    | _ => cases same
  · rintro rfl
    generalize same : ['L'] = t at spelled
    cases spelled with
    | word _ _ => rw [← same]; rfl
    | assign spelled => cases spelled; simp at same
    | _ => simp at same

/-- A token that starts like the boundary is a word. -/
theorem isCommandChar_of_spells {depth : Nat} {u : List Char} {node : Node}
    (spelled : Spells depth ('L' :: u) node) : ∀ c ∈ u, isCommandChar c = true := by
  rw [spells_eq] at spelled
  generalize same : 'L' :: u = t at spelled
  cases spelled with
  | word _ inWord =>
    rw [← same] at inWord
    exact fun c member => inWord c (by simp [member])
  | assign spelled => cases spelled; simp at same
  | _ => simp at same

theorem orElse_eq_ok_iff {α : Type} {tried : Option Fault} {x : Except Fault α} {a : α} :
    orElse tried x = .ok a ↔ x = .ok a := by
  unfold orElse
  split <;> simp

theorem readPhases_sound {count : Nat} {first : Bool} {tried : Option Fault} {s : List Char}
    {setup loop : List Node} (run : readPhases count first tried s = .ok (setup, loop)) :
    ∃ ts us, List.Forall₂ (Spells maxDepth) ts setup ∧ List.Forall₂ (Spells maxDepth) us loop ∧
      s = listed first ts ++ ("|L|".toList ++ (join us ++ ['|'])) := by
  induction count generalizing first tried s setup with
  | zero => cases run
  | succ count ih =>
    unfold readPhases at run
    dsimp only at run
    split at run
    · rename_i found attempt
      cases run
      obtain ⟨rest, mark, atLoop⟩ := Option.map_eq_some_iff.mp attempt
      obtain ⟨us, spelled, split⟩ := readLoop_sound atLoop
      refine ⟨[], us, .nil, spelled, ?_⟩
      rw [Text.strip?_eq_some_iff.mp mark, split, listed_true]
      rfl
    · obtain ⟨s₁, bar, run⟩ := bind_eq_ok run
      obtain ⟨⟨node, s₂⟩, atToken, run⟩ := bind_eq_ok run
      obtain ⟨⟨tail, last⟩, atTail, run⟩ := bind_eq_ok run
      cases run
      obtain ⟨t, spelled, split⟩ := (readNode_reads maxDepth).sound (orElse_eq_ok_iff.mp atToken)
      obtain ⟨ts, us, spelledTail, spelledLoop, (splitTail : s₂ = _)⟩ := ih atTail
      refine ⟨t :: ts, us, .cons spelled spelledTail, spelledLoop, ?_⟩
      rw [skipBar_eq_ok_iff.mp (orElse_eq_ok_iff.mp bar), split, splitTail, listed_cons]
      simp

theorem readPhases_mark {count : Nat} {first : Bool} {tried : Option Fault} {s : List Char}
    {loop : List Node} (atLoop : readLoop (s.length + 1) true s = .ok loop) :
    readPhases (count + 1) first tried ("|L|".toList ++ s) = .ok ([], loop) := by
  unfold readPhases
  simp only [Text.strip?_append, Option.map_some, atLoop]
  rfl

theorem readPhases_loop {us : List (List Char)} {loop : List Node} {count : Nat}
    (spelled : List.Forall₂ (Spells maxDepth) us loop) (first : Bool) (tried : Option Fault) :
    readPhases (count + 1) first tried ("|L|".toList ++ (join us ++ ['|'])) = .ok ([], loop) := by
  have room := length_le_join us
  rw [← listed_true] at room ⊢
  exact readPhases_mark (readLoop_complete spelled (by simp; omega) true)

/-- One token of the setup, if no loop section stands there. -/
theorem readPhases_token {count : Nat} {first : Bool} {s rest : List Char} {node : Node}
    {setup loop : List Node} (atToken : readTop s = .ok (node, rest))
    (refused : ∀ after found, separator first ++ s = "|L|".toList ++ after →
      readLoop (after.length + 1) true after ≠ .ok found)
    (tail : ∀ tried, readPhases count false tried rest = .ok (setup, loop)) (tried : Option Fault) :
    readPhases (count + 1) first tried (separator first ++ s) = .ok (node :: setup, loop) := by
  unfold readPhases
  dsimp only
  split
  · rename_i found attempt
    obtain ⟨after, mark, atLoop⟩ := Option.map_eq_some_iff.mp attempt
    exact absurd atLoop (refused after found (Text.strip?_eq_some_iff.mp mark))
  · refine (run_bind (orElse_eq_ok_iff.mpr (skipBar_eq_ok_iff.mpr rfl)) _).trans ?_
    refine (run_bind (orElse_eq_ok_iff.mpr atToken) _).trans ?_
    exact run_bind (tail _) _

theorem barred_mark (ts : List (List Char)) (s : List Char) :
    barred ts ++ ("|L|".toList ++ s) = '|' :: (join (ts ++ [['L']]) ++ '|' :: s) := by
  cases ts with
  | nil => rfl
  | cons t ts =>
    rw [List.cons_append, join_cons, barred_append, barred_cons]
    simp [barred]

theorem join_mark (ts : List (List Char)) {us : List (List Char)} (nonempty : us ≠ []) :
    join (ts ++ [['L']]) ++ '|' :: join us = join (ts ++ ['L'] :: us) := by
  obtain ⟨u, us, rfl⟩ := List.exists_cons_of_ne_nil nonempty
  have last : '|' :: join (u :: us) = barred (u :: us) := by rw [join_cons, barred_cons]
  rw [last]
  cases ts with
  | nil => rw [List.nil_append, List.nil_append, join_cons, join_cons]; simp [barred]
  | cons t ts =>
    rw [List.cons_append, List.cons_append, join_cons, join_cons, barred_append, barred_append]
    simp [barred]

/-- The text behind a command that looks like the boundary is a loop section exactly if the loop behind
the true boundary has a token: two bars in a row end no script. -/
theorem readLoop_behind {ts us : List (List Char)} {setup loop : List Node} {node : Node}
    (spelled : List.Forall₂ (Spells maxDepth) ts setup) (spelledLoop : List.Forall₂ (Spells maxDepth) us loop)
    (boundary : Spells maxDepth ['L'] node) {s : List Char}
    (split : '|' :: s = barred ts ++ ("|L|".toList ++ (join us ++ ['|']))) :
    (loop ≠ [] → readLoop (s.length + 1) true s = .ok (setup ++ node :: loop)) ∧
      (loop = [] → ∀ found, readLoop (s.length + 1) true s ≠ .ok found) := by
  rw [barred_mark] at split
  obtain ⟨-, rfl⟩ := List.cons.inj split
  constructor
  · intro nonempty
    have spelledAll := List.rel_append spelled (.cons boundary spelledLoop)
    have someText : us ≠ [] := by
      rintro rfl
      cases spelledLoop
      exact nonempty rfl
    rw [← List.cons_append, ← List.append_assoc, join_mark ts someText, ← listed_true]
    refine readLoop_complete spelledAll ?_ true
    have := length_le_join (ts ++ ['L'] :: us)
    rw [listed_true]
    simp only [List.length_append, List.length_cons] at this ⊢
    omega
  · rintro rfl found
    cases spelledLoop
    have spelledAll := List.rel_append spelled (.cons boundary .nil)
    rw [← listed_true]
    exact readLoop_two_bars spelledAll _ true found

theorem ne_mark {depth : Nat} {t : List Char} {node : Node} (spelled : Spells depth t node)
    (other : t ≠ ['L']) (rest after : List Char) : separator false ++ (t ++ rest) ≠ "|L|".toList ++ after := by
  obtain ⟨c, u, rfl, -⟩ := spells_starts spelled
  intro (same : '|' :: c :: (u ++ rest) = '|' :: 'L' :: '|' :: after)
  obtain ⟨rfl, behind⟩ := List.cons.inj (List.cons.inj same).2
  cases u with
  | nil => exact other rfl
  | cons d u =>
    cases (List.cons.inj behind).1
    exact absurd (isCommandChar_of_spells spelled '|' (by simp)) (by decide)

/-- The nodes behind the first of the setup, and the loop: if the loop is not empty, the first command
that looks like the boundary is taken for it. -/
def migrate : List Node → List Node → List Node × List Node
  | [], loop => ([], loop)
  | node :: setup, loop =>
    if isBoundary node ∧ loop ≠ [] then ([], setup ++ node :: loop)
    else (node :: (migrate setup loop).1, (migrate setup loop).2)

theorem readPhases_migrate {ts us : List (List Char)} {setup loop : List Node}
    (spelled : List.Forall₂ (Spells maxDepth) ts setup) (spelledLoop : List.Forall₂ (Spells maxDepth) us loop)
    {count : Nat} (room : ts.length < count) (tried : Option Fault) :
    readPhases count false tried (listed false ts ++ ("|L|".toList ++ (join us ++ ['|']))) =
      .ok (migrate setup loop) := by
  induction spelled generalizing count tried with
  | nil =>
    obtain ⟨count, rfl⟩ : ∃ k, count = k + 1 := Nat.exists_eq_succ_of_ne_zero (by omega)
    exact readPhases_loop spelledLoop false tried
  | @cons t node ts setup spelled spelledTail ih =>
    obtain ⟨count, rfl⟩ : ∃ k, count = k + 1 := Nat.exists_eq_succ_of_ne_zero (by omega)
    have fewer : ts.length < count := by simpa using room
    have tail := ih fewer
    have atToken := (readNode_reads maxDepth).complete spelled
      (endsToken_listed ts ('L' :: '|' :: (join us ++ ['|'])))
    rw [listed_cons, List.append_assoc, List.append_assoc]
    by_cases looks : t = ['L']
    · subst looks
      obtain ⟨after, split⟩ : ∃ after, '|' :: after = barred ts ++ ("|L|".toList ++ (join us ++ ['|'])) :=
        ⟨_, (barred_mark ts _).symm⟩
      obtain ⟨accepted, refused⟩ := readLoop_behind spelledTail spelledLoop spelled split
      have isMark : separator false ++ (['L'] ++ (listed false ts ++ ("|L|".toList ++ (join us ++ ['|'])))) =
          "|L|".toList ++ after := by
        rw [listed_false, ← split]
        rfl
      have isLooks := (isBoundary_iff_spelled spelled).mpr rfl
      by_cases empty : loop = []
      · rw [migrate, if_neg (fun moved => moved.2 empty)]
        subst empty
        refine readPhases_token atToken (fun other found same => ?_) tail tried
        cases List.append_cancel_left (isMark.symm.trans same)
        exact refused rfl found
      · rw [migrate, if_pos ⟨isLooks, empty⟩, isMark]
        exact readPhases_mark (accepted empty)
    · rw [migrate, if_neg (fun moved => looks ((isBoundary_iff_spelled spelled).mp moved.1))]
      exact readPhases_token atToken (fun after found same => absurd same (ne_mark spelled looks _ _)) tail tried

/-- The split that a program has once it is read: the first node of the setup stays there. -/
def resplit : List Node → List Node → List Node × List Node
  | [], loop => ([], loop)
  | node :: setup, loop => (node :: (migrate setup loop).1, (migrate setup loop).2)

theorem readPhases_resplit {ts us : List (List Char)} {setup loop : List Node}
    (spelled : List.Forall₂ (Spells maxDepth) ts setup) (spelledLoop : List.Forall₂ (Spells maxDepth) us loop)
    {count : Nat} (room : ts.length < count) (tried : Option Fault) :
    readPhases count true tried (join ts ++ ("|L|".toList ++ (join us ++ ['|']))) =
      .ok (resplit setup loop) := by
  cases spelled with
  | nil =>
    obtain ⟨count, rfl⟩ : ∃ k, count = k + 1 := Nat.exists_eq_succ_of_ne_zero (by omega)
    exact readPhases_loop spelledLoop true tried
  | @cons t node ts setup spelled spelledTail =>
    obtain ⟨count, rfl⟩ : ∃ k, count = k + 1 := Nat.exists_eq_succ_of_ne_zero (by omega)
    have atToken := (readNode_reads maxDepth).complete spelled
      (endsToken_listed ts ('L' :: '|' :: (join us ++ ['|'])))
    rw [← listed_true, listed_cons, List.append_assoc, List.append_assoc]
    refine readPhases_token atToken (fun after found same => ?_)
      (readPhases_migrate spelledTail spelledLoop (by simpa using room)) tried
    obtain ⟨c, u, rfl, inWord⟩ := spells_starts spelled
    cases (List.cons.inj same).1
    exact absurd inWord (by decide)

theorem charsAll_eq_map (nodes : List Node) : Node.charsAll nodes = nodes.map Node.chars := by
  induction nodes with
  | nil => rfl
  | cons node nodes ih => rw [Node.charsAll, ih, List.map_cons]

theorem migrate_eq_self_iff {setup loop : List Node} :
    migrate setup loop = (setup, loop) ↔ loop = [] ∨ ∀ node ∈ setup, node ≠ .command "L" := by
  induction setup with
  | nil => simp [migrate]
  | cons node setup ih =>
    rw [List.forall_mem_cons, ne_eq, ← isBoundary_iff, migrate]
    split
    · rename_i moved
      simp [moved]
    · rename_i stays
      have kept : (node :: (migrate setup loop).1, (migrate setup loop).2) = (node :: setup, loop) ↔
          migrate setup loop = (setup, loop) := by
        simp [Prod.ext_iff]
      rw [kept, ih]
      tauto

/-- Moving the boundary to a command that looks like it leaves the text. -/
theorem chars_migrate (setup loop : List Node) :
    barred (Node.charsAll (migrate setup loop).1) ++
        ("|L|".toList ++ join (Node.charsAll (migrate setup loop).2)) =
      barred (Node.charsAll setup) ++ ("|L|".toList ++ join (Node.charsAll loop)) := by
  induction setup with
  | nil => rfl
  | cons node setup ih =>
    rw [migrate]
    split
    · rename_i moved
      obtain ⟨isLooks, nonempty⟩ := moved
      cases isBoundary_iff.mp isLooks
      have isMark : (Node.command "L").chars = ['L'] := rfl
      have someText : loop.map Node.chars ≠ [] := by simpa using nonempty
      simp only [charsAll_eq_map, List.map_append, List.map_cons, List.map_nil, isMark, barred_cons]
      rw [← join_mark _ someText, List.cons_append, List.append_assoc, barred_mark (setup.map Node.chars)]
      rfl
    · rw [Node.charsAll, Node.charsAll, barred_cons, barred_cons, List.cons_append, List.cons_append,
        List.append_assoc, List.append_assoc, ih]

theorem resplit_eq_self_iff {setup loop : List Node} :
    resplit setup loop = (setup, loop) ↔ loop = [] ∨ ∀ node ∈ setup.drop 1, node ≠ .command "L" := by
  cases setup with
  | nil => simp [resplit]
  | cons node setup =>
    rw [List.drop_one, List.tail_cons, ← migrate_eq_self_iff, resplit]
    simp [Prod.ext_iff]

theorem chars_resplit (setup loop : List Node) :
    join (Node.charsAll (resplit setup loop).1) ++
        ("|L|".toList ++ join (Node.charsAll (resplit setup loop).2)) =
      join (Node.charsAll setup) ++ ("|L|".toList ++ join (Node.charsAll loop)) := by
  cases setup with
  | nil => rfl
  | cons node setup =>
    rw [resplit, Node.charsAll, Node.charsAll, join_cons, join_cons, List.append_assoc, List.append_assoc,
      chars_migrate]

/-- The text is the script of a program, with the boundary where the program has it. -/
inductive SpellsProgram : List Char → Program → Prop
  | mk {flags : List InitFlag} {ts us : List (List Char)} {setup loop : List Node}
      (valid : ∀ flag ∈ flags, flag.Valid) (spelled : List.Forall₂ (Spells maxDepth) ts setup)
      (spelledLoop : List.Forall₂ (Spells maxDepth) us loop) :
      SpellsProgram ("|I|".toList ++ (join (flags.map InitFlag.chars) ++
        ("|S|".toList ++ (join ts ++ ("|L|".toList ++ (join us ++ ['|'])))))) ⟨flags, setup, loop⟩

end Script

/-- A program with the boundary at the first place that looks like it. -/
def Program.resplit (p : Program) : Program :=
  ⟨p.initFlags, (Script.resplit p.setup p.loop).1, (Script.resplit p.setup p.loop).2⟩

theorem Program.resplit_eq_self_iff {p : Program} :
    p.resplit = p ↔ p.loop = [] ∨ ∀ node ∈ p.setup.drop 1, node ≠ .command "L" := by
  rw [← Script.resplit_eq_self_iff]
  cases p
  simp [Program.resplit, Prod.ext_iff]

theorem Program.chars_eq (p : Program) :
    p.chars = "|I|".toList ++ (Script.join (p.initFlags.map InitFlag.chars) ++
      ("|S|".toList ++ (Script.join (Node.charsAll p.setup) ++
        ("|L|".toList ++ (Script.join (Node.charsAll p.loop) ++ ['|']))))) := by
  delta Program.chars
  simp only [List.append_assoc]

theorem Program.chars_resplit (p : Program) : p.resplit.chars = p.chars := by
  have phases := congrArg (· ++ ['|']) (Script.chars_resplit p.setup p.loop)
  simp only [List.append_assoc] at phases
  rw [chars_eq, chars_eq, resplit, phases]

namespace Script

theorem readProgram_sound {s : List Char} {p : Program} (run : readProgram s = .ok p) :
    SpellsProgram s p := by
  obtain ⟨s₁, atStart, run⟩ := bind_eq_ok run
  obtain ⟨⟨flags, s₂⟩, atFlags, run⟩ := bind_eq_ok run
  obtain ⟨s₃, atSetup, run⟩ := bind_eq_ok run
  obtain ⟨⟨setup, loop⟩, atPhases, run⟩ := bind_eq_ok run
  cases run
  obtain ⟨valid, split⟩ := readFlags_sound atFlags
  obtain ⟨ts, us, spelled, spelledLoop, splitPhases⟩ := readPhases_sound atPhases
  rw [expect_eq_ok_iff.mp atStart, split, expect_eq_ok_iff.mp atSetup, splitPhases, listed_true, listed_true]
  exact .mk valid spelled spelledLoop

theorem readProgram_complete {s : List Char} {p : Program} (spelled : SpellsProgram s p) :
    readProgram s = .ok p.resplit := by
  obtain @⟨flags, ts, us, setup, loop, valid, spelled, spelledLoop⟩ := spelled
  have roomFlags := length_le_join (flags.map InitFlag.chars)
  have roomSetup := length_le_join ts
  simp only [List.length_map] at roomFlags
  refine (expect_bind "|I|" _ _).trans ?_
  rw [← listed_true (flags.map InitFlag.chars)] at roomFlags ⊢
  refine (run_bind (readFlags_complete valid (by simp; omega) true _) _).trans ?_
  refine (expect_bind "|S|" _ _).trans ?_
  exact run_bind (readPhases_resplit spelled spelledLoop (by simp; omega) none) _

theorem parse_eq_ok_iff {script : String} {p : Program} :
    parse script = .ok p ↔ readProgram script.toList = .ok p := by
  unfold parse located
  cases readProgram script.toList <;> simp [Except.mapError]

end RobotScript.Script
