import RobotScript.Proofs.Script.Sections
import RobotScript.Proofs.Script.Tracking

namespace RobotScript.Script

open ByteReader (Outcome Reading)

section Steps

variable {text : String} {α β : Type} {i : Nat} {s : List Char}

theorem readNode_shorter {depth : Nat} {node : Node} {t : List Char} (run : readNode depth s = .ok (node, t)) :
    t.length < s.length := by
  obtain ⟨u, spelled, rfl⟩ := (readNode_reads depth).sound run
  obtain ⟨c, v, rfl, -⟩ := spells_starts spelled
  rw [List.length_append, List.length_cons]
  omega

theorem expect_shorter {literal : String} {t : List Char} (run : expect literal s = .ok t)
    (nonempty : literal.toList ≠ []) : t.length < s.length := by
  rw [expect_eq_ok_iff.mp run, List.length_append]
  have := List.length_pos_iff.mpr nonempty
  omega

/-- By characters the count runs out at the end of the text at the earliest, where no token stands. -/
theorem readTokens_tracks {byBytes : Reading Node} {token : Reader Node} (follows : Follows text byBytes token)
    (shorter : ∀ {s t node}, token s = .ok (node, t) → t.length < s.length)
    (empty : token [] = .error ⟨[], .noToken⟩) {turns count : Nat} (enough : s.length < turns)
    (room : s.length ≤ count) (place : At text i s) :
    Tracks text (Beside text) (ByteReader.readTokens text byBytes turns i) (readTokens token count s) := by
  induction turns generalizing i s count with
  | zero => omega
  | succ turns ih =>
    rw [ByteReader.readTokens]
    cases count with
    | zero =>
      cases List.length_eq_zero_iff.mp (Nat.le_zero.mp room)
      have stopped : readTokens token 0 [] = token [] >>= fun _ => .error ⟨[], .noToken⟩ := by
        rw [empty]
        rfl
      rw [stopped]
      refine Follows.bind follows place fun node i s _ run => ?_
      rw [empty] at run
      cases run
    | succ count =>
      rw [readTokens]
      refine Follows.bind follows place fun node i t place run => ?_
      have short := shorter run
      simp only [place.startsWith_eq, pure_bind]
      cases found : Text.strip? "|\x7d" t with
      | some rest =>
        rw [Text.strip?_eq_some_iff.mp found] at place
        exact .done _ place.literal
      | none =>
        refine (expect_tracks "|" place).bind fun i u place bar => ?_
        have shorter := expect_shorter bar (by decide)
        refine (ih (by omega) (by omega) place).bind ?_
        rintro ⟨nodes, i⟩ ⟨_, s⟩ ⟨rfl, place⟩ -
        exact .done _ place

theorem readBody_none_follows : Follows text (ByteReader.readBody text none) (readBody none) := by
  intro i s place
  refine (expect_tracks "\x7b" place).bind fun i s place _ => ?_
  exact .fault _ place

theorem readBody_follows {byBytes : Reading Node} {token : Reader Node} (follows : Follows text byBytes token)
    (shorter : ∀ {s t node}, token s = .ok (node, t) → t.length < s.length)
    (empty : token [] = .error ⟨[], .noToken⟩) :
    Follows text (ByteReader.readBody text (some byBytes)) (readBody (some token)) := by
  intro i s place
  refine (expect_tracks "\x7b" place).bind fun i s place _ => ?_
  dsimp only
  by_cases close : ByteReader.current text i = some '}'
  · obtain ⟨t, rfl⟩ := (place.current_eq_some_iff (by decide)).mp close
    rw [if_pos close]
    exact .done _ (place.next (by decide))
  · rw [if_neg close]
    split
    · exact absurd ((place.current_eq_some_iff (by decide)).mpr ⟨_, rfl⟩) close
    · refine (expect_tracks "|" place).bind fun i s place _ => ?_
      exact readTokens_tracks follows shorter empty place.length_lt_turns (Nat.le_refl _) place

theorem readCases_tracks {byBytes : Reading (List Node)} {body : Reader (List Node)}
    (follows : Follows text byBytes body) (shorter : ∀ {s t nodes}, body s = .ok (nodes, t) → t.length ≤ s.length)
    {turns count : Nat} (enough : s.length < turns) (room : s.length < count) (place : At text i s) :
    Tracks text (Beside text) (ByteReader.readCases text byBytes turns i) (readCases body count s) := by
  induction turns generalizing i s count with
  | zero => omega
  | succ turns ih =>
    obtain ⟨count, rfl⟩ := Nat.exists_eq_succ_of_ne_zero (Nat.ne_zero_of_lt room)
    rw [ByteReader.readCases, readCases]
    refine (expect_tracks "(" place).bind fun i t place opened => ?_
    have short := expect_shorter opened (by decide)
    simp only [place.startsWith_eq, pure_bind]
    cases found : Text.strip? "D)" t with
    | some rest =>
      rw [Text.strip?_eq_some_iff.mp found] at place
      refine Follows.bind follows place.literal fun default i s place _ => ?_
      refine (expect_tracks ")" place).bind fun i s place _ => ?_
      exact .done _ place
    | none =>
      refine readValue_follows.bind place fun value i u place read => ?_
      refine (expect_tracks ")" place).bind fun i v place closed => ?_
      refine Follows.bind follows place fun nodes i w place inner => ?_
      refine (expect_tracks " " place).bind fun i x place blank => ?_
      have less : x.length < s.length := by
        obtain ⟨t, -, rfl⟩ := readValue_reads.sound read
        have := expect_shorter closed (by decide)
        have := shorter inner
        have := expect_shorter blank (by decide)
        rw [List.length_append] at short
        omega
      refine (ih (by omega) (by omega) place).bind ?_
      rintro ⟨⟨cases, default⟩, i⟩ ⟨_, s⟩ ⟨rfl, place⟩ -
      exact .done _ place

section Nodes

variable {byBytes : Reading (List Node)} {body : Reader (List Node)} (follows : Follows text byBytes body)
include follows

theorem readBranch_tracks {t : List Char} (place : At text i ('C' :: '(' :: t)) :
    Tracks text (Beside text) (ByteReader.readBranch text byBytes i) (readNodeWith body ('C' :: '(' :: t)) := by
  rw [ByteReader.readBranch, @At.expect_eq _ _ _ "C(" place, pure_bind, readNodeWith]
  refine readCondition_follows.bind (@At.literal _ _ _ "C(" place) fun condition i s place _ => ?_
  refine (expect_tracks ")" place).bind fun i s place _ => ?_
  refine Follows.bind follows place fun yes i s place _ => ?_
  refine Follows.bind follows place fun no i s place _ => ?_
  exact .done _ place

theorem readRepeat_tracks {t : List Char} (place : At text i ('W' :: '(' :: t)) :
    Tracks text (Beside text) (ByteReader.readRepeat text byBytes i) (readNodeWith body ('W' :: '(' :: t)) := by
  rw [ByteReader.readRepeat, @At.expect_eq _ _ _ "W(" place, pure_bind, readNodeWith]
  refine readCondition_follows.bind (@At.literal _ _ _ "W(" place) fun condition i s place _ => ?_
  refine (expect_tracks ")" place).bind fun i s place _ => ?_
  refine Follows.bind follows place fun nodes i s place _ => ?_
  exact .done _ place

theorem readCount_tracks {t : List Char} (place : At text i ('F' :: '(' :: t)) :
    Tracks text (Beside text) (ByteReader.readCount text byBytes i) (readNodeWith body ('F' :: '(' :: t)) := by
  rw [ByteReader.readCount, @At.expect_eq _ _ _ "F(" place, pure_bind, readNodeWith]
  refine readInt_follows.bind (@At.literal _ _ _ "F(" place) fun start i s place _ => ?_
  refine (expect_tracks "-" place).bind fun i s place _ => ?_
  refine readInt_follows.bind place fun stop i s place _ => ?_
  refine (expect_tracks "," place).bind fun i s place _ => ?_
  refine readInt_follows.bind place fun step i s place _ => ?_
  refine (expect_tracks ")" place).bind fun i s place _ => ?_
  dsimp only
  split
  · exact .fault _ place
  · refine Follows.bind follows place fun nodes i s place _ => ?_
    exact .done _ place

theorem readSelect_tracks (shorter : ∀ {s t nodes}, body s = .ok (nodes, t) → t.length ≤ s.length) {t : List Char}
    (place : At text i ('K' :: '(' :: t)) :
    Tracks text (Beside text) (ByteReader.readSelect text byBytes i) (readNodeWith body ('K' :: '(' :: t)) := by
  rw [ByteReader.readSelect, @At.expect_eq _ _ _ "K(" place, pure_bind, readNodeWith]
  refine readValue_follows.bind (@At.literal _ _ _ "K(" place) fun value i s place _ => ?_
  refine (expect_tracks ", " place).bind fun i s place _ => ?_
  refine (readCases_tracks follows shorter place.length_lt_turns (Nat.lt_succ_self _) place).bind ?_
  rintro ⟨⟨cases, default⟩, i⟩ ⟨_, s⟩ ⟨rfl, place⟩ -
  exact .done _ place

theorem readNodeWith_follows (shorter : ∀ {s t nodes}, body s = .ok (nodes, t) → t.length ≤ s.length) :
    Follows text (ByteReader.readNodeWith text byBytes) (readNodeWith body) := by
  intro i s place
  have opens {c : Char} (ascii : c.toNat < 0x80) := place.current_pair_iff ascii (by decide : '('.toNat < 0x80)
  rw [ByteReader.readNodeWith]
  split
  · rename_i first second
    obtain ⟨t, rfl⟩ := (opens (by decide)).mp ⟨first, second⟩
    exact readBranch_tracks follows place
  · rename_i first second
    obtain ⟨t, rfl⟩ := (opens (by decide)).mp ⟨first, second⟩
    exact readRepeat_tracks follows place
  · rename_i first second
    obtain ⟨t, rfl⟩ := (opens (by decide)).mp ⟨first, second⟩
    exact readCount_tracks follows place
  · rename_i first second
    obtain ⟨t, rfl⟩ := (opens (by decide)).mp ⟨first, second⟩
    exact readSelect_tracks follows shorter place
  · rename_i first second
    obtain ⟨t, rfl⟩ := (opens (by decide)).mp ⟨first, second⟩
    exact readAssign_follows place
  · rename_i notBranch notRepeat notCount notSelect notAssign
    rw [readNodeWith]
    · exact readWord_follows place
    · exact fun t same => (opens (by decide)).mpr ⟨t, same⟩ |>.elim notBranch
    · exact fun t same => (opens (by decide)).mpr ⟨t, same⟩ |>.elim notRepeat
    · exact fun t same => (opens (by decide)).mpr ⟨t, same⟩ |>.elim notCount
    · exact fun t same => (opens (by decide)).mpr ⟨t, same⟩ |>.elim notSelect
    · exact fun t same => (opens (by decide)).mpr ⟨t, same⟩ |>.elim notAssign

end Nodes

theorem readNode_nil (depth : Nat) : readNode depth [] = .error ⟨[], .noToken⟩ := by
  cases depth <;> rfl

/-- Tokens are read by bytes as by characters, at every depth. -/
theorem readNode_follows (depth : Nat) : Follows text (ByteReader.readNode text depth) (readNode depth) := by
  induction depth with
  | zero =>
    refine readNodeWith_follows readBody_none_follows fun run => ?_
    obtain ⟨_, none, -⟩ := readBody_none_reads.sound run
    exact none.elim
  | succ depth ih =>
    refine readNodeWith_follows (readBody_follows ih readNode_shorter (readNode_nil depth)) fun run => ?_
    obtain ⟨u, -, rfl⟩ := (readBody_reads (readNode_reads depth) spells_starts).sound run
    rw [List.length_append]
    omega

theorem readTop_follows : Follows text (ByteReader.readTop text) readTop := readNode_follows maxDepth

theorem skipBar_tracks (first : Bool) (place : At text i s) :
    Tracks text (At text) (ByteReader.skipBar text first i) (skipBar first s) := by
  cases first with
  | true => exact .ok place
  | false => exact expect_tracks "|" place

theorem skipBar_shorter {first : Bool} {t : List Char} (run : skipBar first s = .ok t) : t.length ≤ s.length := by
  rw [skipBar_eq_ok_iff.mp run, List.length_append]
  omega

theorem readFlags_tracks {turns count : Nat} (first : Bool) (enough : s.length < turns) (room : s.length < count)
    (place : At text i s) :
    Tracks text (Beside text) (ByteReader.readFlags text turns first i) (readFlags count first s) := by
  induction turns generalizing i s first count with
  | zero => omega
  | succ turns ih =>
    obtain ⟨count, rfl⟩ := Nat.exists_eq_succ_of_ne_zero (Nat.ne_zero_of_lt room)
    rw [ByteReader.readFlags, readFlags, place.startsWith_eq, pure_bind]
    split
    · exact .done _ place
    · refine (skipBar_tracks first place).bind fun i t place bar => ?_
      have short := skipBar_shorter bar
      have whole : At text i (t.takeWhile (· != '|') ++ t.dropWhile (· != '|')) := by
        rwa [List.takeWhile_append_dropWhile]
      have inToken (c : Char) (long : 0x80 ≤ c.toNat) : (c != '|') = true := by
        rw [bne_iff_ne]
        rintro rfl
        exact absurd long (by decide)
      simp only [place.skipWhile_eq inToken, whole.slice_eq, pure_bind]
      cases found : InitFlag.ofChars? (t.takeWhile (· != '|')) with
      | none => exact .fault _ place
      | some flag =>
        have less : (t.dropWhile (· != '|')).length < t.length := by
          have token : t.takeWhile (· != '|') ≠ [] := fun empty => by
            rw [empty] at found
            cases found
          have := List.length_pos_iff.mpr token
          have := congrArg List.length (List.takeWhile_append_dropWhile (p := (· != '|')) (l := t))
          rw [List.length_append] at this
          omega
        refine (ih false (by omega) (by omega) whole.append).bind ?_
        rintro ⟨flags, i⟩ ⟨_, s⟩ ⟨rfl, place⟩ -
        exact .done _ place

theorem readLoop_tracks {turns count : Nat} (first : Bool) (enough : s.length < turns) (room : s.length < count)
    (place : At text i s) : Tracks text Eq (ByteReader.readLoop text turns first i) (readLoop count first s) := by
  induction turns generalizing i s first count with
  | zero => omega
  | succ turns ih =>
    obtain ⟨count, rfl⟩ := Nat.exists_eq_succ_of_ne_zero (Nat.ne_zero_of_lt room)
    rw [ByteReader.readLoop, readLoop, place.rest_eq, pure_bind]
    split
    · exact .ok rfl
    · refine (skipBar_tracks first place).bind fun i t place bar => ?_
      refine readTop_follows.bind place fun node i u place read => ?_
      have := skipBar_shorter bar
      have := readNode_shorter read
      refine (ih false (by omega) (by omega) place).bind ?_
      rintro nodes _ rfl -
      exact .ok rfl

/-- A fault by bytes and by characters, with the same place. -/
inductive Located (text : String) : Option Refusal → Option Fault → Prop
  | none : Located text none none
  | some {i : Nat} {s : List Char} (cause : Cause) : At text i s → Located text (some ⟨i, cause⟩) (some ⟨s, cause⟩)

theorem orElse_tracks {same : α → β → Prop} {tried : Option Refusal} {tried' : Option Fault}
    (located : Located text tried tried') {x : Outcome α} {y : Except Fault β} (tracks : Tracks text same x y) :
    Tracks text same (ByteReader.orElse tried x) (orElse tried' y) := by
  cases tracks with
  | ok both => cases located <;> exact .ok both
  | fault cause place =>
    cases located with
    | none => exact .fault cause place
    | some earlier before => exact .fault earlier before

/-- One more token of the setup. -/
theorem readToken_tracks {same : α → β → Prop} {f : Node × Nat → Outcome α} {g : Node × List Char → Except Fault β}
    (first : Bool) {tried : Option Refusal} {tried' : Option Fault} (located : Located text tried tried')
    (place : At text i s)
    (next : ∀ node j t, At text j t → t.length < s.length → Tracks text same (f (node, j)) (g (node, t))) :
    Tracks text same
      (ByteReader.orElse tried (ByteReader.skipBar text first i) >>= fun i =>
        ByteReader.orElse tried (ByteReader.readTop text i) >>= f)
      (orElse tried' (skipBar first s) >>= fun s => orElse tried' (readTop s) >>= g) := by
  refine (orElse_tracks located (skipBar_tracks first place)).bind fun i t place bar => ?_
  refine (orElse_tracks located (readTop_follows place)).bind ?_
  rintro ⟨node, i⟩ ⟨_, u⟩ ⟨rfl, place⟩ read
  have := skipBar_shorter (orElse_eq_ok_iff.mp bar)
  have := readNode_shorter (orElse_eq_ok_iff.mp read)
  exact next node i u place (by omega)

/-- A loop section is tried by bytes where it is tried by characters, and comes to the same. -/
theorem tryLoop_cases (place : At text i s) {attempt : Option (Except Fault (List Node))}
    (byChars : ((Text.strip? "|L|" s).map fun rest => readLoop (rest.length + 1) true rest) = attempt) :
    (∃ loop, ByteReader.tryLoop text i = pure (some (.ok loop)) ∧ attempt = some (.ok loop)) ∨
      (ByteReader.tryLoop text i = pure none ∧ attempt = none) ∨
      ∃ refusal fault, ByteReader.tryLoop text i = pure (some (.error refusal)) ∧ attempt = some (.error fault) ∧
        Located text (some refusal) (some fault) := by
  rw [ByteReader.tryLoop, place.startsWith_eq, pure_bind, ← byChars]
  cases found : Text.strip? "|L|" s with
  | none => exact .inr (.inl ⟨rfl, rfl⟩)
  | some rest =>
    rw [Text.strip?_eq_some_iff.mp found] at place
    have behind : At text (i + 3) rest := place.literal
    have tracks := readLoop_tracks true behind.length_lt_turns (Nat.lt_succ_self rest.length) behind
    dsimp only [Option.isSome_some, Option.map_some]
    rw [if_pos rfl]
    generalize ByteReader.readLoop text (ByteReader.turns text) true (i + 3) = x at tracks ⊢
    generalize readLoop (rest.length + 1) true rest = y at tracks ⊢
    cases tracks with
    | ok same => exact .inl ⟨_, rfl, same ▸ rfl⟩
    | fault cause place => exact .inr (.inr ⟨_, _, rfl, rfl, .some cause place⟩)

theorem readPhases_tracks {turns count : Nat} (first : Bool) {tried : Option Refusal} {tried' : Option Fault}
    (located : Located text tried tried') (enough : s.length < turns) (room : s.length < count) (place : At text i s) :
    Tracks text Eq (ByteReader.readPhases text turns first tried i) (readPhases count first tried' s) := by
  induction turns generalizing i s first tried tried' count with
  | zero => omega
  | succ turns ih =>
    obtain ⟨count, rfl⟩ := Nat.exists_eq_succ_of_ne_zero (Nat.ne_zero_of_lt room)
    rw [ByteReader.readPhases, readPhases]
    rcases tryLoop_cases place rfl with
      ⟨loop, byBytes, byChars⟩ | ⟨byBytes, byChars⟩ | ⟨refusal, fault, byBytes, byChars, located⟩ <;>
      rw [byBytes, pure_bind, byChars]
    · exact .ok rfl
    -- Without a loop section a token of the setup comes next, whether one was tried here or not.
    all_goals
      refine readToken_tracks first located place fun node i t place short => ?_
      refine (ih false located (by omega) (by omega) place).bind ?_
      rintro ⟨setup, loop⟩ _ rfl -
      exact .ok rfl

theorem readTokenList_tracks {turns count : Nat} (enough : s.length < turns) (room : s.length < count)
    (place : At text i s) : Tracks text Eq (ByteReader.readTokenList text turns i) (readTokenList count s) := by
  induction turns generalizing i s count with
  | zero => omega
  | succ turns ih =>
    obtain ⟨count, rfl⟩ := Nat.exists_eq_succ_of_ne_zero (Nat.ne_zero_of_lt room)
    rw [ByteReader.readTokenList, readTokenList]
    refine readTop_follows.bind place fun node i t place read => ?_
    simp only [place.size_le_iff]
    split
    · exact .ok rfl
    · refine (expect_tracks "|" place).bind fun i u place bar => ?_
      have := readNode_shorter read
      have := expect_shorter bar (by decide)
      refine (ih (by omega) (by omega) place).bind ?_
      rintro nodes _ rfl -
      exact .ok rfl

theorem readProgram_tracks (script : String) :
    Tracks script Eq (ByteReader.parse script) (readProgram script.toList) := by
  refine (expect_tracks "|I|" (.start script)).bind fun i s place _ => ?_
  refine (readFlags_tracks true place.length_lt_turns (Nat.lt_succ_self _) place).bind ?_
  rintro ⟨flags, i⟩ ⟨_, s⟩ ⟨rfl, place⟩ -
  refine (expect_tracks "|S|" place).bind fun i s place _ => ?_
  refine (readPhases_tracks true .none place.length_lt_turns (Nat.lt_succ_self _) place).bind ?_
  rintro ⟨setup, loop⟩ _ rfl -
  exact .ok rfl

/-- Reading by bytes finds every slice that it asks for, and refuses at a place that is not inside a character. -/
theorem Tracks.resolves {x : Outcome α} {y : Except Fault α} (tracks : Tracks text Eq x y) :
    x.run = some (located text.toList y) ∧
      ∀ refusal, located text.toList y = .error refusal →
        refusal.position ≤ text.utf8ByteSize ∧ String.Pos.Raw.IsValid text ⟨refusal.position⟩ := by
  cases tracks with
  | ok same =>
    subst same
    exact ⟨rfl, fun refusal refused => by cases refused⟩
  | @fault i s cause place =>
    have whole : Text.byteSize text.toList - Text.byteSize s = i := by
      rw [byteSize_eq_utf8ByteSize, String.ofList_toList, ← place.add_byteSize, Nat.add_sub_cancel]
    have refused : located text.toList (.error ⟨s, cause⟩ : Except Fault α) = .error ⟨i, cause⟩ := by
      rw [← whole]
      rfl
    refine ⟨by rw [refused]; rfl, fun refusal same => ?_⟩
    cases refused.symm.trans same
    exact ⟨Nat.le.intro place.add_byteSize, place.isValid⟩

end Steps

/-- A script is read alike by characters and by places in its bytes. No slice on the way lies outside the script or
cuts a character, and no refusal does. The same holds of a bare token list and its core. -/
theorem parse_on_boundaries :
    (∀ script : String, (ByteReader.parse script).run = some (parse script) ∧
      ∀ refusal, parse script = .error refusal →
        refusal.position ≤ script.utf8ByteSize ∧ String.Pos.Raw.IsValid script ⟨refusal.position⟩) ∧
    ∀ text : String, (ByteReader.parseTokens text).run = some (parseTokens text) ∧
      ∀ refusal, parseTokens text = .error refusal →
        refusal.position ≤ (ByteReader.core text).utf8ByteSize ∧
          String.Pos.Raw.IsValid (ByteReader.core text) ⟨refusal.position⟩ := by
  refine ⟨fun script => (readProgram_tracks script).resolves, fun text => ?_⟩
  have start := At.start (ByteReader.core text)
  have empty := start.size_le_iff
  have resolved := (readTokenList_tracks start.length_lt_turns (Nat.lt_succ_self _) start).resolves
  rw [Nat.le_zero] at empty
  have chars : (ByteReader.core text).toList = tokenListCore text.toList := String.toList_ofList
  rw [chars] at empty resolved
  rw [ByteReader.parseTokens, parseTokens]
  by_cases none : (tokenListCore text.toList).isEmpty = true
  · rw [if_pos none, if_pos (empty.mpr none)]
    exact ⟨rfl, fun refusal refused => by cases refused⟩
  · rw [if_neg none, if_neg (mt empty.mp none)]
    exact resolved

end RobotScript.Script
