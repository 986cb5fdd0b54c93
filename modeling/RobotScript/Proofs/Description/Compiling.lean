import RobotScript.Description.Compiling
import RobotScript.Proofs.Description.Invariant
import RobotScript.Proofs.Script.Checking
import RobotScript.Proofs.Script.Normal

namespace RobotScript

namespace Node

theorem Clean.spellable {node : Node} (clean : node.Clean) : node.Spellable := by
  have legal := clean.legal
  cases node with
  | command token => exact isCommandChar_of_isCommandToken legal
  | count start stop step body => exact legal
  | _ => trivial

/-- Reading makes no `L` out of another instruction, and keeps the one there is. -/
theorem reread_eq_loop_iff {f : Value → Value} {node : Node} :
    node.reread f = .command "L" ↔ node = .command "L" := by
  constructor
  · intro same
    cases node with
    | command token =>
      simp only [reread, Script.ofWord] at same
      split at same
      · cases same
      · split at same
        · cases same
        · rwa [String.ofList_toList] at same
    | _ => cases same
  · intro same
    rw [same]
    rfl

end Node

namespace Program

variable {p : Program}

theorem normal_resplit_eq_self_iff :
    p.normal.resplit = p.normal ↔ p.loop = [] ∨ ∀ node ∈ p.setup.drop 1, node ≠ .command "L" := by
  have loop : p.normal.loop = [] ↔ p.loop = [] := by
    simp only [normal, reread, Node.rereadAll_eq_map, List.map_eq_nil_iff]
  have setup : p.normal.setup.drop 1 = (p.setup.drop 1).map (Node.reread Value.normal) := by
    simp only [normal, reread, Node.rereadAll_eq_map, List.map_drop]
  rw [resplit_eq_self_iff, loop, setup, List.forall_mem_map]
  simp only [ne_eq, Node.reread_eq_loop_iff]

end Program

namespace Description

/-- The script of a clean program spells its normal form. -/
theorem spellsProgram_normal {p : Program} (isClean : p.Clean) : Script.SpellsProgram p.chars p.normal := by
  refine Script.spellsProgram_reread isClean.flags_valid (fun k node within => ?_)
    (fun k node within v member => ?_) fun k node within _ => ?_
  · exact (isClean.within k node within).1.spellable
  · exact Script.spellsValue_normal ((isClean.within k node within).1.values v member)
  · have bound : k ≤ maxDepth := (isClean.within k node within).2
    have room : maxDepth < Script.maxDepth := by decide
    omega

theorem check_render {p : Program} (isClean : p.Clean) : Script.check p.render = .ok () := by
  rw [Script.check, Program.render, String.toList_ofList]
  exact Script.checkChars_of_spells (spellsProgram_normal isClean)

theorem check_render_clean (raw : Json) : Script.check (clean raw).value.render = .ok () :=
  check_render (clean_program raw)

/-- Compiling never fails: the last check has nothing to find in the script of a cleaned description. -/
theorem compile_total (raw : Json) :
    Script.check (clean raw).value.render = .ok () ∧
      compile raw = .ok ⟨(clean raw).value, (clean raw).value.render, (clean raw).warnings⟩ := by
  have passed := check_render_clean raw
  refine ⟨passed, ?_⟩
  simp only [compile, passed]
  rfl

theorem parse_render {p : Program} (isClean : p.Clean) : Script.parse p.render = .ok p.normal.resplit := by
  rw [Script.parse_eq_ok_iff, Program.render, String.toList_ofList]
  exact Script.readProgram_complete (spellsProgram_normal isClean)

theorem parse_render_clean (raw : Json) :
    Script.parse (clean raw).value.render = .ok (clean raw).value.normal.resplit :=
  parse_render (clean_program raw)

/-- The script of a cleaned description is read as its normal form, unless an `L` behind the first
instruction of the setup looks like the mark of the loop. -/
theorem parse_render_clean_eq_normal_iff (raw : Json) :
    Script.parse (clean raw).value.render = .ok (clean raw).value.normal ↔
      (clean raw).value.loop = [] ∨ ∀ node ∈ (clean raw).value.setup.drop 1, node ≠ .command "L" := by
  rw [parse_render_clean, Except.ok.injEq]
  exact Program.normal_resplit_eq_self_iff

end Description

end RobotScript
