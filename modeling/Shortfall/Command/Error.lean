import Shortfall.Audit
import Shortfall.Catalog.Pack
import Shortfall.Catalog.PackSwitch
import Shortfall.Command.Line
import Shortfall.Gap.Document
import Shortfall.Log.Encoding
import Shortfall.Settings
import Shortfall.Taint.Program

/-!
# Errors of commands
-/

namespace Shortfall.Command

/-- Why a command failed. -/
inductive Error where
  | line (error : LineError)
  | settings (error : Settings.Error)
  | log (error : Log.Error)
  | packs (error : Catalog.LoadError)
  /-- Neither findings nor programs to find some in. -/
  | noFindings
  | badThreshold (error : Gap.Risk.Unknown)
  | document (error : Gap.DocumentLoadError)
  | program (error : Taint.Program.LoadError)
  | strategy (error : Gap.ResolveError)
  | analysis (error : Gap.AnalysisError)
  /-- Gaps at or above the risk that makes a run fail. -/
  | gapsFound (threshold : Gap.Risk)
  | violationsFound (count : Nat)
  | auditLog (error : Audit.ReadError)
  | pack (error : Catalog.SwitchError)
  | file (error : Files.Error)

namespace Error

def message : Error → Text
  | line error => error.message
  | settings error => "failed to load config: " ++ error.message
  | log error => error.message
  | packs error => "failed to load category packs: " ++ error.message
  | noFindings => "one of --taint or --program is required"
  | badThreshold error => "--fail-on: " ++ error.message
  | document error => error.message
  | program error => error.message
  | strategy error => error.message
  | analysis error => error.message
  | gapsFound threshold =>
      "security gaps at or above the failure threshold (" ++ threshold.name ++ ")"
  | violationsFound count => Text.ofNat count ++ " security invariant violation(s) found"
  | auditLog error => "failed to read audit log: " ++ error.message
  | pack error => error.message
  | file error => error.message

/-- The failed operation on files that an error goes back to, if one does. -/
def fileError? : Error → Option Files.Error
  | settings (.noDirectory error) => some error
  | settings (.badFile (.unreadable error)) => some error
  | packs (.unreadable error) => some error
  | document (.unreadable _ error) => some error
  | program (.unreadable error) => some error
  | auditLog (.unreadable error) => some error
  | pack (.notMoved _ error) => some error
  | pack (.unreadable error) => some error
  | file error => some error
  | _ => none

end Error

end Shortfall.Command
