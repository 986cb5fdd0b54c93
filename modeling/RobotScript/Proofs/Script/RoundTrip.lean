import RobotScript.Proofs.Script.Rereading

namespace RobotScript

/-- A program that can be read back from its script. Its texts may be anything. -/
structure Program.Printable (p : Program) : Prop where
  flags : ∀ flag ∈ p.initFlags, flag.Valid
  command : ∀ k token, Within p.nodes k (.command token) →
    token.toList ≠ [] ∧ ∀ c ∈ token.toList, isCommandChar c = true
  step : ∀ k start stop step body, Within p.nodes k (.count start stop step body) → step ≠ 0
  float : ∀ k node x, Within p.nodes k node → .float x ∈ node.values → x.isFinite = true
  depth : ∀ k node, Within p.nodes k node → node.bodies ≠ [] → k ≤ 63

theorem Program.Printable.spellable {p : Program} (printable : p.Printable) {k : Nat} {node : Node}
    (within : Within p.nodes k node) : node.Spellable := by
  cases node with
  | command token => exact printable.command k token within
  | count start stop step body => exact printable.step k start stop step body within
  | _ => trivial

namespace Script

/-- A value stands in its place as it is printed. -/
theorem SpellsValue.reprint {t : List Char} {v : Value} (spelled : SpellsValue t v) :
    SpellsValue v.chars v := by
  rw [spelled.chars_eq]
  exact spelled

theorem SpellsCondition.reprint {t : List Char} {c : Condition} (spelled : SpellsCondition t c) :
    SpellsCondition c.chars c := by
  rw [spelled.chars_eq]
  exact spelled

section

variable {spellsBody : List Char → List Node → Prop}

theorem SpellsCases.reprint {t : List Char} {cases : List (Value × List Node)}
    (spelled : SpellsCases spellsBody t cases)
    (bodies : ∀ {b : List Char} {nodes : List Node}, spellsBody b nodes →
      spellsBody (body (Node.charsAll nodes)) nodes) :
    SpellsCases spellsBody (Node.charsCases cases) cases := by
  induction spelled with
  | nil => exact .nil
  | cons spelledValue spelledBody _ ih => exact .cons spelledValue.reprint (bodies spelledBody) ih

/-- The bounds of a counted loop are the only part that printing may respell. -/
theorem SpellsNode.reprint {t : List Char} {node : Node} (spelled : SpellsNode spellsBody t node)
    (bodies : ∀ {b : List Char} {nodes : List Node}, spellsBody b nodes →
      spellsBody (body (Node.charsAll nodes)) nodes) :
    SpellsNode spellsBody node.chars node := by
  cases spelled with
  | word nonempty inWord =>
    rw [chars_ofWord]
    exact .word nonempty inWord
  | assign spelled =>
    cases spelled with
    | mk target op spelledValue => exact .assign (.mk target op spelledValue.reprint)
  | branch spelledCondition spelledYes spelledNo =>
    exact .branch spelledCondition.reprint (bodies spelledYes) (bodies spelledNo)
  | repeatWhile spelledCondition spelledBody => exact .repeatWhile spelledCondition.reprint (bodies spelledBody)
  | count _ _ _ nonzero spelledBody =>
    exact .count (spellsInt_intDigits _) (spellsInt_intDigits _) (spellsInt_intDigits _) nonzero
      (bodies spelledBody)
  | select spelledValue spelledCases spelledDefault =>
    exact .select spelledValue.reprint (spelledCases.reprint bodies) (bodies spelledDefault)

theorem SpellsCases.eq_chars {t : List Char} {cases : List (Value × List Node)}
    (spelled : SpellsCases spellsBody t cases)
    (bodies : ∀ nodes ∈ cases.map Prod.snd, ∀ b, spellsBody b nodes → b = body (Node.charsAll nodes)) :
    t = Node.charsCases cases := by
  induction spelled with
  | nil => rfl
  | cons spelledValue spelledBody _ ih =>
    obtain ⟨ofFirst, ofCases⟩ := List.forall_mem_cons.mp bodies
    rw [Node.charsCases, spelledValue.chars_eq, ← ofFirst _ spelledBody, ← ih ofCases]

theorem SpellsNode.eq_chars {t : List Char} {node : Node} (spelled : SpellsNode spellsBody t node)
    (other : ∀ start stop step nodes, node ≠ .count start stop step nodes)
    (bodies : ∀ nodes ∈ node.bodies, ∀ b, spellsBody b nodes → b = body (Node.charsAll nodes)) :
    t = node.chars := by
  cases spelled with
  | word _ _ => rw [chars_ofWord]
  | assign spelled =>
    cases spelled with
    | mk target op spelledValue => rw [Node.chars, spelledValue.chars_eq]
  | branch spelledCondition spelledYes spelledNo =>
    rw [Node.chars, spelledCondition.chars_eq, ← bodies _ (by simp [Node.bodies]) _ spelledYes,
      ← bodies _ (by simp [Node.bodies]) _ spelledNo]
  | repeatWhile spelledCondition spelledBody =>
    rw [Node.chars, spelledCondition.chars_eq, ← bodies _ (by simp [Node.bodies]) _ spelledBody]
  | count => exact absurd rfl (other _ _ _ _)
  | select spelledValue spelledCases spelledDefault =>
    obtain ⟨ofCases, ofDefault⟩ := List.forall_mem_append.mp bodies
    rw [Node.chars, spelledValue.chars_eq, ← spelledCases.eq_chars ofCases,
      ← ofDefault _ (by simp) _ spelledDefault]

end

theorem reprint_tokens {token : List Char → Node → Prop} {ts : List (List Char)} {nodes : List Node}
    (spelled : List.Forall₂ token ts nodes)
    (one : ∀ {t : List Char} {node : Node}, token t node → token node.chars node) :
    List.Forall₂ token (Node.charsAll nodes) nodes := by
  induction spelled with
  | nil => exact .nil
  | cons first _ ih => exact .cons (one first) ih

theorem tokens_eq_chars {token : List Char → Node → Prop} {ts : List (List Char)} {nodes : List Node}
    (spelled : List.Forall₂ token ts nodes) (one : ∀ node ∈ nodes, ∀ t, token t node → t = node.chars) :
    ts = Node.charsAll nodes := by
  induction spelled with
  | nil => rfl
  | cons first _ ih =>
    obtain ⟨ofFirst, ofOthers⟩ := List.forall_mem_cons.mp one
    rw [Node.charsAll, ← ofFirst _ first, ← ih ofOthers]

theorem Spells.reprint {depth : Nat} {t : List Char} {node : Node} (spelled : Spells depth t node) :
    Spells depth node.chars node := by
  induction depth generalizing t node with
  | zero => exact SpellsNode.reprint spelled fun impossible => impossible
  | succ depth ih =>
    refine SpellsNode.reprint spelled fun spelledBody => ?_
    cases spelledBody with
    | mk tokens => exact .mk (reprint_tokens tokens ih)

/-- Without counted loops a token has one spelling. -/
theorem spells_eq_chars {depth : Nat} {nodes : List Node}
    (countFree : ∀ k start stop step body, ¬Within nodes k (.count start stop step body)) :
    ∀ node ∈ nodes, ∀ t, Spells depth t node → t = node.chars := by
  induction depth generalizing nodes with
  | zero =>
    rintro node member t spelled
    refine SpellsNode.eq_chars spelled ?_ fun _ _ _ impossible => impossible.elim
    rintro start stop step body rfl
    exact countFree 0 start stop step body (.here member)
  | succ depth ih =>
    rintro node member t spelled
    refine SpellsNode.eq_chars spelled ?_ fun nodes isBody b spelledBody => ?_
    · rintro start stop step body rfl
      exact countFree 0 start stop step body (.here member)
    · cases spelledBody with
      | mk tokens =>
        rw [tokens_eq_chars tokens (ih fun k start stop step body within => ?_)]
        exact countFree (k + 1) start stop step body (.inside member isBody within)

theorem SpellsProgram.reprint {t : List Char} {p : Program} (spelled : SpellsProgram t p) :
    SpellsProgram p.chars p := by
  cases spelled with
  | mk valid setup loop =>
    rw [Program.chars_eq]
    exact .mk valid (reprint_tokens setup Spells.reprint) (reprint_tokens loop Spells.reprint)

theorem SpellsProgram.eq_chars {t : List Char} {p : Program} (spelled : SpellsProgram t p)
    (countFree : ∀ k start stop step body, ¬Within p.nodes k (.count start stop step body)) :
    t = p.chars := by
  obtain ⟨inSetup, inLoop⟩ := List.forall_mem_append.mp (spells_eq_chars countFree)
  cases spelled with
  | mk valid setup loop =>
    rw [Program.chars_eq]
    rw [tokens_eq_chars setup inSetup, tokens_eq_chars loop inLoop]

theorem render_parse_render {p : Program} (printable : p.Printable) :
    ∃ q, parse p.render = .ok q ∧ q.render = p.render := by
  have spelled : SpellsProgram p.chars (p.reread Value.reread) := by
    refine spellsProgram_reread printable.flags (fun k node within => printable.spellable within)
      (fun k node within v member => Value.spellsValue_reread ?_)
      fun k node within has => Nat.lt_succ_of_le (printable.depth k node within has)
    rintro x rfl
    exact printable.float k node x within member
  refine ⟨(p.reread Value.reread).resplit, ?_, ?_⟩
  · rw [parse_eq_ok_iff, Program.render, String.toList_ofList]
    exact readProgram_complete spelled
  · rw [Program.render, Program.chars_resplit, Program.chars_reread Value.chars_reread, Program.render]

/-- A text that looks like the end of a script, and commands that look like the boundary and like the
end of a loop. -/
def deceptive : Program where
  initFlags := [.eyes, .pairing "a b"]
  setup := [.assign ⟨.string, 1, by decide, by decide⟩ .set (.text "|L|\"'\\\x7d|"), .command "L"]
  loop := [.repeatWhile ⟨.eq, .text "", .bool true⟩ [.command "X"]]

theorem within_deceptive {k : Nat} {node : Node} (within : Within deceptive.nodes k node) :
    node ∈ .command "X" :: deceptive.nodes ∧ k ≤ 1 := by
  cases within with
  | here member => exact ⟨List.mem_cons_of_mem _ member, by omega⟩
  | inside outer isBody within =>
    simp only [deceptive, Program.nodes, List.cons_append, List.nil_append, List.mem_cons, List.not_mem_nil,
      or_false] at outer
    rcases outer with rfl | rfl | rfl
    · simp [Node.bodies] at isBody
    · simp [Node.bodies] at isBody
    · cases List.mem_singleton.mp isBody
      cases within with
      | here member => exact ⟨by simp [List.mem_singleton.mp member], by omega⟩
      | inside outer isBody _ =>
        cases List.mem_singleton.mp outer
        simp [Node.bodies] at isBody

theorem render_parse_render_deceptive :
    deceptive.Printable ∧ ∃ q, parse deceptive.render = .ok q ∧ q.render = deceptive.render := by
  have printable : deceptive.Printable := by
    refine ⟨?_, ?_, ?_, ?_, fun k node within _ => by have := within_deceptive within; omega⟩
    · simp [deceptive, InitFlag.Valid]
      decide
    · intro k token within
      have place := (within_deceptive within).1
      simp [deceptive, Program.nodes] at place
      rcases place with rfl | rfl <;> exact ⟨List.cons_ne_nil _ _, List.all_eq_true.mp (by decide)⟩
    · intro k start stop step body within
      have place := (within_deceptive within).1
      simp [deceptive, Program.nodes] at place
    · intro k node x within member
      have place := (within_deceptive within).1
      simp [deceptive, Program.nodes] at place
      rcases place with rfl | rfl | rfl | rfl <;> simp [Node.values] at member
  exact ⟨printable, render_parse_render printable⟩

/-- A script that is read keeps its split: the boundary was taken at the first place that looks like it. -/
theorem resplit_of_readProgram {s : List Char} {p : Program} (run : readProgram s = .ok p) : p.resplit = p := by
  have again := readProgram_complete (readProgram_sound run)
  exact (Except.ok.inj (run.symm.trans again)).symm

theorem parse_render_of_parse {script : String} {p : Program} (run : parse script = .ok p) :
    parse p.render = .ok p ∧
      ((∀ k start stop step body, ¬Within p.nodes k (.count start stop step body)) → p.render = script) := by
  rw [parse_eq_ok_iff] at run
  have spelled := readProgram_sound run
  constructor
  · have again := readProgram_complete spelled.reprint
    rw [resplit_of_readProgram run] at again
    rw [parse_eq_ok_iff, Program.render, String.toList_ofList]
    exact again
  · intro countFree
    rw [Program.render, ← spelled.eq_chars countFree, String.ofList_toList]

/-- A quoted number stays a text, and the loop may start with a command that looks like the boundary. -/
theorem parse_render_of_parse_quoted :
    ∃ p : Program, parse "|I|E|S|L|G(S,1,=,\"5\")|L|L|X|" = .ok p ∧ parse p.render = .ok p ∧
      p.render = "|I|E|S|L|G(S,1,=,\"5\")|L|L|X|" := by
  have boundary : Spells maxDepth ['L'] (.command "L") := by
    rw [spells_eq, show Node.command "L" = ofWord ['L'] from rfl]
    exact .word (List.cons_ne_nil _ _) (List.forall_mem_singleton.mpr rfl)
  have leave : Spells maxDepth ['X'] .leave := by
    rw [spells_eq, show Node.leave = ofWord ['X'] from rfl]
    exact .word (List.cons_ne_nil _ _) (List.forall_mem_singleton.mpr rfl)
  have value : SpellsValue ['"', '5', '"'] (.text "\"5\"") := by
    rw [show Value.text "\"5\"" = readQuoted ['"', '5', '"'] by decide]
    exact .quoted (by decide)
  have assign : Spells maxDepth "G(S,1,=,\"5\")".toList
      (.assign ⟨.string, 1, by decide, by decide⟩ .set (.text "\"5\"")) := by
    have token := SpellsAssign.mk ⟨.string, 1, by decide, by decide⟩ .set value
    rw [spells_eq]
    exact .assign token
  have text : "|I|E|S|L|G(S,1,=,\"5\")|L|L|X|".toList =
      "|I|".toList ++ (join ([InitFlag.eyes].map InitFlag.chars) ++ ("|S|".toList ++
        (join [['L'], "G(S,1,=,\"5\")".toList] ++ ("|L|".toList ++ (join [['L'], ['X']] ++ ['|']))))) := by
    decide
  have run : parse "|I|E|S|L|G(S,1,=,\"5\")|L|L|X|" = .ok ⟨[.eyes], [.command "L",
      .assign ⟨.string, 1, by decide, by decide⟩ .set (.text "\"5\"")], [.command "L", .leave]⟩ := by
    have valid : ∀ flag ∈ [InitFlag.eyes], flag.Valid := by simp [InitFlag.Valid]
    have spelled := SpellsProgram.mk valid (.cons boundary (.cons assign .nil)) (.cons boundary (.cons leave .nil))
    rw [parse_eq_ok_iff, text, readProgram_complete spelled, Program.resplit_eq_self_iff.mpr (.inr (by simp))]
  obtain ⟨again, back⟩ := parse_render_of_parse run
  refine ⟨_, run, again, back ?_⟩
  intro k start stop step body within
  cases within with
  | here member => simp [Program.nodes] at member
  | inside outer isBody _ =>
    simp only [Program.nodes, List.cons_append, List.nil_append, List.mem_cons, List.not_mem_nil, or_false] at outer
    rcases outer with rfl | rfl | rfl | rfl <;> simp [Node.bodies] at isBody

end Script

end RobotScript
