import RobotScript.Assistant
import RobotScript.Block.Placement
import RobotScript.CommandLine.Run
import RobotScript.Config
import RobotScript.Description.Basic
import RobotScript.Link
import RobotScript.Main
import RobotScript.Program.Flags
import RobotScript.Text.DecimalDigit
import RobotScript.Proofs.Description.Compiling
import RobotScript.Proofs.Description.NormalForm
import RobotScript.Proofs.Script.RoundTrip
import RobotScript.Proofs.Number.Integers
import RobotScript.Proofs.Description.Invariant
import RobotScript.Proofs.Description.Recleaning
import RobotScript.Proofs.Script.Grammar
import RobotScript.Proofs.Assistant.Deliverable
import RobotScript.Proofs.Block.Layout
import RobotScript.Proofs.Block.ReadBack
import RobotScript.Proofs.Block.ProgramTree
import RobotScript.Proofs.Block.Agreement
import RobotScript.Proofs.Block.Alternative
import RobotScript.Proofs.Block.MapText
import RobotScript.Proofs.Script.Opacity
import RobotScript.Proofs.Service.KeySource
import RobotScript.Proofs.Block.Ordering
import RobotScript.Proofs.Block.Accounting
import RobotScript.Proofs.Program.NeededFlags
import RobotScript.Proofs.Description.Silence
import RobotScript.Proofs.Block.Conservation
import RobotScript.Proofs.Block.Guards
import RobotScript.Proofs.Script.Balance
import RobotScript.Proofs.Request.Delivery
import RobotScript.Proofs.Request.NamedDelay
import RobotScript.Proofs.Script.TokenList
import RobotScript.Proofs.Script.Boundaries
import RobotScript.Proofs.Service.ConfigFile
import RobotScript.Proofs.Json.Extraction
import RobotScript.Proofs.Script.Escapes
