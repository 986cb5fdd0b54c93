import RobotScript.Assistant
import RobotScript.Link
import RobotScript.Proofs.Description.Compiling
import RobotScript.Proofs.Request.Answers

namespace RobotScript

namespace Response

/-- What every answer to a request keeps to: its script is the one of its program and passes the last
check, it falls back exactly where there is nothing to run, and no notice tells of a failed check. -/
structure Deliverable (r : Response) : Prop where
  script : r.script = r.program.render
  passes : Script.check r.script = .ok ()
  fallback : r.fallback = true ↔ r.program.setup = [] ∧ r.program.loop = []
  safe : r.fallback = true → r.script = fallbackScript
  checked : ∀ flaw, Notice.checkFailed flaw ∉ r.notices

theorem render_empty : Program.empty.render = fallbackScript := by decide

theorem safe_deliverable {notices : List Notice} {reason : Notice}
    (checked : ∀ flaw, Notice.checkFailed flaw ∉ notices ++ [reason]) : (safe notices reason).Deliverable where
  script := render_empty.symm
  passes := by
    have isClean : Program.empty.Clean := Description.clean_program .null
    have passes := Description.check_render isClean
    rwa [render_empty] at passes
  fallback := ⟨fun _ => ⟨rfl, rfl⟩, fun _ => rfl⟩
  safe := fun _ => rfl
  checked := checked

/-- The script of a clean program passes the check, so the other outcome of finishing does not occur. -/
theorem ofProgram_clean {program : Program} (isClean : program.Clean) (explanation : String)
    (notices : List Notice) :
    ofProgram program explanation notices = .ok ⟨program, program.render, explanation, notices, false⟩ := by
  simp only [ofProgram, Description.check_render isClean]

theorem deliverable_of_clean {program : Program} (isClean : program.Clean)
    (runs : ¬(program.setup = [] ∧ program.loop = [])) (explanation : String) {notices : List Notice}
    (checked : ∀ flaw, Notice.checkFailed flaw ∉ notices) :
    Deliverable ⟨program, program.render, explanation, notices, false⟩ where
  script := rfl
  passes := Description.check_render isClean
  fallback := ⟨fun impossible => absurd impossible Bool.false_ne_true, fun nothing => absurd nothing runs⟩
  safe := fun impossible => absurd impossible Bool.false_ne_true
  checked := checked

end Response

namespace Assistant

theorem withoutService_deliverable (a : Assistant) (message : String) {notices : List Notice}
    (checked : ∀ flaw, Notice.checkFailed flaw ∉ notices) : (a.withoutService message notices).Deliverable := by
  unfold withoutService
  split
  · exact Response.safe_deliverable (by simpa using checked)
  · rename_i answer found
    have answered : Request.answer? message = some answer := by
      split at found
      · exact found
      · cases found
    obtain ⟨isClean, runs⟩ := Request.answer?_clean answered
    rw [Response.ofProgram_clean isClean]
    exact Response.deliverable_of_clean isClean (fun nothing => runs nothing.2) _ (by simpa using checked)

theorem ofReply_deliverable (a : Assistant) (message : String) (reply : Service.Reply) :
    (a.ofReply message reply).Deliverable := by
  have isClean := Description.clean_program reply.program
  have checked (flaw : Script.Flaw) : Notice.checkFailed flaw ∉
      (Description.clean reply.program).warnings.map Notice.repaired ++ reply.warnings.map Notice.fromService := by
    simp
  unfold ofReply
  dsimp only
  split
  · exact a.withoutService_deliverable message (by simp)
  · rename_i nonempty
    rw [Response.ofProgram_clean isClean]
    refine Response.deliverable_of_clean isClean (fun nothing => nonempty ?_) _ checked
    rw [Program.isEmpty, nothing.1, nothing.2]
    rfl

theorem respond_deliverable (a : Assistant) (request : String) : (a.respond request).Deliverable := by
  unfold respond
  split
  · exact Response.safe_deliverable (by simp)
  · split
    · exact a.withoutService_deliverable _ (by simp)
    · split
      · exact a.withoutService_deliverable _ (by simp)
      · exact a.ofReply_deliverable _ _

end Assistant

namespace Link

/-- It is left to the check to reject a script: the transport itself never answers so. -/
def Transport.LeavesRejection (σ : Type) [Transport σ] : Prop :=
  ∀ (link : σ) script ms rejection, (Transport.deliver link script ms).1 ≠ .error (.rejected rejection)

theorem transmit_of_check {σ : Type} [Transport σ] {script : String} (passes : Script.check script = .ok ()) (link : σ)
    (ms : Nat) : transmit link script ms = Transport.deliver link script ms := by
  simp only [transmit, passes]

end Link

/-- Whatever the service does and whatever is asked, the answer can be sent: its script passes the check and
reaches the transport, and it is the empty script exactly where no program was found. -/
theorem Assistant.respond_reaches_link (a : Assistant) (request : String) :
    (a.respond request).script = (a.respond request).program.render ∧
      Script.check (a.respond request).script = .ok () ∧
      (∀ (σ : Type) [Link.Transport σ] (link : σ) ms, Link.transmit link (a.respond request).script ms =
        Link.Transport.deliver link (a.respond request).script ms) ∧
      (∀ (σ : Type) [Link.Transport σ], Link.Transport.LeavesRejection σ → ∀ (link : σ) ms rejection,
        (Link.transmit link (a.respond request).script ms).1 ≠ .error (.rejected rejection)) ∧
      ((a.respond request).fallback = true ↔
        (a.respond request).program.setup = [] ∧ (a.respond request).program.loop = []) ∧
      ((a.respond request).fallback = true → (a.respond request).script = "|I||S||L||") ∧
      ∀ flaw, Notice.checkFailed flaw ∉ (a.respond request).notices := by
  obtain ⟨script, passes, fallback, safe, checked⟩ := a.respond_deliverable request
  refine ⟨script, passes, fun σ _ link ms => Link.transmit_of_check passes link ms, ?_, fallback, safe, checked⟩
  intro σ _ leaves link ms rejection
  rw [Link.transmit_of_check passes]
  exact leaves link _ ms rejection

/-- A transport that keeps what it is given and acknowledges all of it. -/
structure Link.Recorder where
  sent : List String

instance : Link.Transport Link.Recorder where
  deliver link script _ := (.ok "OK", ⟨link.sent ++ [script]⟩)

theorem Assistant.respond_reaches_link_recorded :
    let a : Assistant := { service := none, keywords := false }
    Link.Transport.LeavesRejection Link.Recorder ∧ (a.respond "turn the red led on").fallback = true ∧
      Link.transmit (⟨["|I|E|S||L|ERN|"]⟩ : Link.Recorder) (a.respond "turn the red led on").script 1000 =
        (.ok "OK", ⟨["|I|E|S||L|ERN|", "|I||S||L||"]⟩) := by
  intro a
  have leaves : Link.Transport.LeavesRejection Link.Recorder := fun _ _ _ _ => nofun
  obtain ⟨-, -, reached, -, -, safe, -⟩ := a.respond_reaches_link "turn the red led on"
  have fallback : (a.respond "turn the red led on").fallback = true := rfl
  refine ⟨leaves, fallback, ?_⟩
  rw [reached, safe fallback]
  rfl

end RobotScript
