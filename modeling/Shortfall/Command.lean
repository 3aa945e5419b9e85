import Shortfall.Command.Analyze
import Shortfall.Command.History
import Shortfall.Command.Packs

/-!
# The command-line tool

`Command.run` runs a command line: it takes the line apart, loads the settings and runs the command
on the files of the monad.
-/

namespace Shortfall.Command

def usage : Text := Report.lines [
  "Usage:",
  "  secgap [command]",
  [],
  "Commands: analyze, catalog, completion, help, log, strategies, taint, version"]

def versionText : Text := Report.lines [
  "secgap 0.1.0-dev",
  "  Commit: unknown",
  "  Built:  unknown"]

/-- The option that a command cannot do without. -/
def requiredOption? : Verb → Option Text
  | .analyze => some "intent"
  | _ => none

/-- The required option that is missing. -/
def missingOption? (invocation : Invocation) : Option Text :=
  (requiredOption? invocation.verb).filter (!invocation.options.isGiven ·)

def runCommand {m : Type → Type} [Monad m] [Files m] (surroundings : Surroundings m)
    (settings : Settings) (invocation : Invocation) : m Outcome :=
  let argument := invocation.arguments.headD []
  match invocation.verb with
  | .analyze => runAnalyze surroundings settings invocation.options
  | .taint => runTaint surroundings settings invocation
  | .log => runLog settings invocation.options
  | .catalog => runCatalog settings
  | .packs => runPacks settings
  | .enable => runSwitch settings true argument
  | .disable => runSwitch settings false argument
  | .showPack => runShow settings argument
  | .strategies => return { output := Report.strategyReport settings.analysis.strategy }
  | .version => return { output := versionText }
  | .top | .help | .completion => return { output := usage }

/-- What a run came to, and how its log is to be written. -/
structure Finished where
  outcome : Outcome
  log : Log.Config := {}

def Finished.failed (error : Error) (log : Log.Config := {}) : Finished :=
  { outcome := .failed error, log }

/-- Runs the command line in some words. -/
def run {m : Type → Type} [Monad m] [Files m] (surroundings : Surroundings m)
    (words : List Text) : m Finished := do
  match parse words with
  | .error error => return .failed (.line error)
  | .ok invocation =>
      if invocation.asksForHelp then return { outcome := { output := usage } }
      match ← Session.start surroundings.environment invocation.options with
      | .error error => return .failed error
      | .ok session =>
          match missingOption? invocation with
          | some name => return .failed (.line (.missingOption name)) session.log
          | none =>
              let outcome ← runCommand surroundings session.settings invocation
              return { outcome, log := session.log }

end Shortfall.Command
