import RobotScript.Proofs.Description.Compiling
import RobotScript.Proofs.Description.Recleaning
import RobotScript.Proofs.Request.Answers

namespace RobotScript

/-- A delay within the bounds for requests; other instructions take no time of their own. -/
def Node.Paced : Node → Prop
  | .delay ms => Request.minDelay ≤ ms.toNat ∧ ms.toNat ≤ Request.maxDelay
  | _ => True

namespace Request

open Description

theorem delay_bounds (s : List Char) : minDelay ≤ delay s ∧ delay s ≤ maxDelay := by
  unfold delay
  split
  · simp only [minDelay, maxDelay]
    omega
  · decide

theorem toNat_delay (s : List Char) : (UInt32.ofNat (delay s)).toNat = delay s := by
  have bound := (delay_bounds s).2
  simp only [maxDelay] at bound
  exact UInt32.toNat_ofNat_of_lt' (by simp only [UInt32.size]; omega)

theorem ofWord_color (s : List Char) : Script.ofWord (color s).on.toList = .command (color s).on ∧
    Script.ofWord (color s).off.toList = .command (color s).off := by
  have words : ∀ c ∈ palette, Script.ofWord c.on.toList = .command c.on ∧
      Script.ofWord c.off.toList = .command c.off := by
    simp only [palette, List.forall_mem_cons]
    exact ⟨⟨rfl, rfl⟩, ⟨rfl, rfl⟩, ⟨rfl, rfl⟩, ⟨rfl, rfl⟩, by simp⟩
  exact words (color s) (color_mem_palette s)

/-- The words of an answer are commands in a script too, and its values keep their kinds. -/
theorem answer?_normal {message : String} {answer : Answer} (found : answer? message = some answer) :
    answer.program.normal = answer.program := by
  rcases answer?_cases found with ⟨debounce, -, program⟩ | ⟨s, rfl⟩ | ⟨s, off, rfl⟩
  · rw [program]
    rfl
  · obtain ⟨on, off⟩ := ofWord_color s
    simp only [blinkAnswer, programOf, Program.normal, Program.reread, Node.rereadAll, Node.reread, on, off]
  · obtain ⟨isOn, isOff⟩ := ofWord_color s
    cases off
    · simp only [switchAnswer, programOf, Program.normal, Program.reread, Node.rereadAll, Node.reread, isOn,
        Bool.false_eq_true, if_false]
    · simp only [switchAnswer, programOf, Program.normal, Program.reread, Node.rereadAll, Node.reread, isOff, if_true]

/-- The setup of an answer is too short for a command in it to look like the mark of the loop. -/
theorem answer?_resplit {message : String} {answer : Answer} (found : answer? message = some answer) :
    answer.program.resplit = answer.program := by
  refine Program.resplit_eq_self_iff.mpr (.inr ?_)
  have short : answer.program.setup.drop 1 = [] := by
    rcases answer?_cases found with ⟨debounce, -, program⟩ | ⟨s, rfl⟩ | ⟨s, off, rfl⟩
    · rw [program]
      rfl
    · rfl
    · rfl
  simp [short]

theorem answer?_paced {message : String} {answer : Answer} (found : answer? message = some answer) :
    Throughout Node.Paced answer.program.nodes := by
  rcases answer?_cases found with ⟨debounce, known, program⟩ | ⟨s, rfl⟩ | ⟨s, off, rfl⟩
  · have paced : (Node.delay debounce).Paced := by
      rcases known with rfl | rfl <;> exact ⟨by decide, by decide⟩
    rw [program]
    simp only [Node.Paced] at paced
    simp [Program.nodes, touchProgram, programOf, throughout_cons, throughout_nil, Node.bodies, Node.Paced, paced]
  · have paced : (Node.delay (UInt32.ofNat (delay s))).Paced := by
      rw [Node.Paced, toNat_delay]
      exact delay_bounds s
    simp only [Program.nodes, blinkAnswer, programOf]
    generalize UInt32.ofNat (delay s) = ms at paced ⊢
    simp only [Node.Paced] at paced
    simp [throughout_cons, throughout_nil, Node.bodies, Node.Paced, paced]
  · simp [Program.nodes, switchAnswer, programOf, throughout_cons, throughout_nil, Node.bodies, Node.Paced]

/-- An answer by keywords needs no repair: cleaning its description changes nothing, its script passes the last check
and is read as the same program, it has something to run, and its delays are within bounds. -/
theorem answer?_delivered {message : String} {answer : Answer} (found : answer? message = some answer) :
    clean answer.program.toJson = ⟨answer.program, []⟩ ∧ Script.check answer.program.render = .ok () ∧
      Script.parse answer.program.render = .ok answer.program ∧ answer.program.loop ≠ [] ∧
      ∀ k ms, Within answer.program.nodes k (.delay ms) → 20 ≤ ms.toNat ∧ ms.toNat ≤ 10000 := by
  obtain ⟨isClean, something⟩ := answer?_clean found
  refine ⟨clean_toJson isClean, check_render isClean, ?_, something, fun k ms within => ?_⟩
  · rw [parse_render isClean, answer?_normal found, answer?_resplit found]
  · exact answer?_paced found k (.delay ms) within

/-- Ninety seconds are too long, and the longest delay takes their place. -/
theorem answer?_delivered_toggle :
    ∃ answer, answer? "Toggle all eyes every 90 Seconds!" = some answer ∧
      answer.program.loop = [.command "EAN", .delay 10000, .command "EAF", .delay 10000] ∧
      clean answer.program.toJson = ⟨answer.program, []⟩ ∧ Script.check answer.program.render = .ok () ∧
      Script.parse answer.program.render = .ok answer.program ∧ answer.program.loop ≠ [] ∧
      ∀ k ms, Within answer.program.nodes k (.delay ms) → 20 ≤ ms.toNat ∧ ms.toNat ≤ 10000 := by
  have long : delay (lower "Toggle all eyes every 90 Seconds!".toList) = 10000 := by decide
  have found : answer? "Toggle all eyes every 90 Seconds!" = some (blinkAnswer ⟨"all", "EAN", "EAF"⟩
      (delay (lower "Toggle all eyes every 90 Seconds!".toList))) := rfl
  rw [long] at found
  exact ⟨_, found, rfl, answer?_delivered found⟩

end Request

end RobotScript
