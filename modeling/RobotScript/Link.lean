import RobotScript.Script.Check

namespace RobotScript.Link

/-- Why a script is turned down: it cannot be read, or it fails the check. -/
inductive Rejection
  | unreadable (refusal : Script.Refusal)
  | flawed (flaw : Script.Flaw)

def Rejection.message : Rejection → String
  | .unreadable refusal => refusal.message
  | .flawed flaw => flaw.message

/-- Why a script was not delivered. -/
inductive Failure
  | rejected (rejection : Rejection)
  | timeout (ms : Nat)
  | disconnected (detail : String)

/-- Whole milliseconds in the greatest unit that has one of them, seconds with a point where needed. -/
def duration (ms : Nat) : String :=
  if ms = 0 then "0ns"
  else if ms < 1000 then toString ms ++ "ms"
  else
    let d : Decimal := ⟨false, ms, -3⟩
    String.ofList d.plain ++ "s"

def Failure.message : Failure → String
  | .rejected rejection => "script rejected before transmission: " ++ rejection.message
  | .timeout ms => "delivery not confirmed within " ++ duration ms
  | .disconnected detail => "transport disconnected: " ++ detail

/-- What carries scripts to the robot. It is given a script and the milliseconds that it may wait, and answers with the
acknowledgement or with the reason why there is none. -/
class Transport (σ : Type) where
  deliver : σ → String → Nat → Except Failure String × σ

/-- Hands a script over if it passes the check; no other script reaches the transport. -/
def transmit {σ : Type} [Transport σ] (link : σ) (script : String) (ms : Nat) : Except Failure String × σ :=
  match Script.check script with
  | .error flaw => (.error (.rejected (.flawed flaw)), link)
  | .ok () => Transport.deliver link script ms

end RobotScript.Link
