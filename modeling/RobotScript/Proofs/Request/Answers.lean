import RobotScript.Proofs.Description.Invariant
import RobotScript.Request.Keywords

namespace RobotScript

open Description

/-- Instructions that are clean at every depth, in bodies that nest no deeper than there is room. -/
def CleanTo (room : Nat) (nodes : List Node) : Prop := ∀ k node, Within nodes k node → node.Clean ∧ k ≤ room

theorem cleanTo_nil (room : Nat) : CleanTo room [] := fun _ _ within => absurd within not_within_nil

theorem CleanTo.cons {room : Nat} {node : Node} {nodes : List Node} (clean : node.Clean)
    (bodies : ∀ body ∈ node.bodies, CleanTo room body) (others : CleanTo (room + 1) nodes) :
    CleanTo (room + 1) (node :: nodes) := by
  intro k inner within
  cases within with
  | here member =>
    rcases List.mem_cons.mp member with rfl | member
    · exact ⟨clean, by omega⟩
    · exact others 0 inner (.here member)
  | @inside _ body outer _ k member isBody within =>
    rcases List.mem_cons.mp member with rfl | member
    · obtain ⟨innerClean, bound⟩ := bodies body isBody k inner within
      exact ⟨innerClean, by omega⟩
    · exact others (k + 1) inner (.inside member isBody within)

/-- An instruction with neither values nor bodies is clean where it is legal. -/
theorem Node.Legal.clean {node : Node} (legal : node.Legal) (noValues : node.values = [])
    (noBodies : node.bodies = []) : node.Clean :=
  ⟨legal, by simp [noValues], by simp [noBodies]⟩

theorem CleanTo.command {room : Nat} {token : String} {nodes : List Node}
    (legal : isCommandToken token.toList = true) (others : CleanTo (room + 1) nodes) :
    CleanTo (room + 1) (.command token :: nodes) :=
  .cons (Node.Legal.clean legal rfl rfl) (by simp [Node.bodies]) others

theorem CleanTo.delay {room : Nat} {ms : UInt32} {nodes : List Node} (others : CleanTo (room + 1) nodes) :
    CleanTo (room + 1) (.delay ms :: nodes) :=
  .cons (Node.Legal.clean trivial rfl rfl) (by simp [Node.bodies]) others

theorem CleanTo.assign {room : Nat} {target : Slot} {op : AssignOp} {n : Int64} {nodes : List Node}
    (others : CleanTo (room + 1) nodes) : CleanTo (room + 1) (.assign target op (.integer n) :: nodes) :=
  .cons ⟨trivial, by simp [Node.values, Value.Clean], by simp [Node.bodies]⟩ (by simp [Node.bodies]) others

namespace Request

theorem programOf_clean {setup loop : List Node} (clean : CleanTo maxDepth (setup ++ loop))
    (fewSetup : setup.length ≤ maxNodes) (fewLoop : loop.length ≤ maxNodes) : (programOf setup loop).Clean :=
  ⟨clean, fewSetup, fewLoop, [], by simp [programOf], List.nodup_nil, by simp⟩

/-- Every answer is one of three programs, with a colour and a delay that the request names. -/
theorem answer?_cases {message : String} {answer : Answer} (found : answer? message = some answer) :
    (∃ debounce, (debounce = 300 ∨ debounce = 500) ∧ answer.program = touchProgram debounce) ∨
      (∃ s, answer = blinkAnswer (color s) (delay s)) ∨ ∃ s off, answer = switchAnswer (color s) off := by
  unfold answer? at found
  dsimp only at found
  split at found
  · rename_i first isTouch
    cases found
    unfold touchAnswer? at isTouch
    dsimp only at isTouch
    split at isTouch
    · cases isTouch
      refine .inl ⟨_, ?_, rfl⟩
      split
      · exact .inr rfl
      · exact .inl rfl
    · cases isTouch
  · unfold eyesAnswer? at found
    dsimp only at found
    split at found
    · split at found
      · cases found
        exact .inr (.inl ⟨_, rfl⟩)
      · cases found
        exact .inr (.inr ⟨_, _, rfl⟩)
    · cases found

/-- The colours that an answer can have. -/
def palette : List Color :=
  [⟨"green", "EGN", "EGF"⟩, ⟨"blue", "EBN", "EBF"⟩, ⟨"all", "EAN", "EAF"⟩, ⟨"red", "ERN", "ERF"⟩]

theorem color_mem_palette (s : List Char) : color s ∈ palette := by
  unfold color
  split
  · simp [palette]
  · split
    · simp [palette]
    · split <;> simp [palette]

theorem color_legal (s : List Char) :
    isCommandToken (color s).on.toList = true ∧ isCommandToken (color s).off.toList = true := by
  have legal : palette.all (fun c => isCommandToken c.on.toList && isCommandToken c.off.toList) = true := by decide
  simpa using List.all_eq_true.mp legal (color s) (color_mem_palette s)

theorem touchProgram_clean (debounce : UInt32) : (touchProgram debounce).Clean := by
  have wrap : CleanTo 4 [.assign (.clamped .int 1) .set (.integer 0)] := .assign (cleanTo_nil _)
  have onTouch : CleanTo 5 [.assign (.clamped .int 1) .add (.integer 1),
      .branch ⟨.gt, .symbol (.slot (.clamped .int 1)), .integer 2⟩ [.assign (.clamped .int 1) .set (.integer 0)] [],
      .delay debounce] := by
    refine .assign (.cons ⟨trivial, ?_, ?_⟩ ?_ (.delay (cleanTo_nil _)))
    · simp [Node.values, Value.Clean]
    · simp [Node.bodies, maxNodes]
    · simpa [Node.bodies] using ⟨wrap, cleanTo_nil 4⟩
  have lit (token : String) (legal : isCommandToken token.toList = true) :
      CleanTo 5 [.command "EAF", .command token] :=
    .command (by decide) (.command legal (cleanTo_nil _))
  have off : CleanTo 5 [.command "EAF"] := .command (by decide) (cleanTo_nil _)
  refine programOf_clean (.assign (.cons ⟨trivial, ?_, ?_⟩ ?_ (.cons ⟨?_, ?_, ?_⟩ ?_ (cleanTo_nil _))))
    (by simp [maxNodes]) (by simp [maxNodes])
  · simp [Node.values, Value.Clean]
  · simp [Node.bodies, maxNodes]
  · simpa [Node.bodies] using ⟨onTouch, cleanTo_nil 5⟩
  · simp [Node.Legal, maxCases]
  · simp [Node.values, Value.Clean]
  · simp [Node.bodies, maxNodes]
  · simpa [Node.bodies] using ⟨lit "EGN" (by decide), lit "ERN" (by decide), lit "EBN" (by decide), off⟩

/-- Every answer is a clean program with something to run. -/
theorem answer?_clean {message : String} {answer : Answer} (found : answer? message = some answer) :
    answer.program.Clean ∧ answer.program.loop ≠ [] := by
  rcases answer?_cases found with ⟨debounce, -, program⟩ | ⟨s, rfl⟩ | ⟨s, off, rfl⟩
  · rw [program]
    exact ⟨touchProgram_clean debounce, List.cons_ne_nil _ _⟩
  · obtain ⟨on, off⟩ := color_legal s
    refine ⟨programOf_clean ?_ (by simp) (by simp [maxNodes]), List.cons_ne_nil _ _⟩
    exact .command on (.delay (.command off (.delay (cleanTo_nil _))))
  · have legal : isCommandToken (if off then (color s).off else (color s).on).toList = true := by
      cases off
      · exact (color_legal s).1
      · exact (color_legal s).2
    exact ⟨programOf_clean (.command legal (cleanTo_nil _)) (by simp) (by simp [maxNodes]), List.cons_ne_nil _ _⟩

end Request

end RobotScript
