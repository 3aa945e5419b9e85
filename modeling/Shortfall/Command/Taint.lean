import Shortfall.Command.Session
import Shortfall.Report.Violations
import Shortfall.Taint.Transfer

/-!
# Running statement programs

Each program is run from an empty state. The first file that holds no program ends the command.
-/

namespace Shortfall.Command

/-- A program that was run, with what it logged. -/
structure ProgramRun where
  findings : Report.ProgramFindings
  entries : List Log.Entry

/-- An entry about a program. -/
def ofProgram (name : Text) (entry : Log.Entry) : Log.Entry :=
  { entry with fields := ("program", .text name) :: entry.fields }

def ProgramRun.of (program : Taint.Program) : ProgramRun where
  findings :=
    { program := program.name
      violations := (Taint.State.run .empty program.statements).violations }
  entries := (Taint.State.notices .empty program.statements).map (ofProgram program.name)

/-- The runs of the programs in some files, up to the first that cannot be loaded. -/
structure ProgramRuns where
  runs : List ProgramRun := []
  error? : Option Taint.Program.LoadError := none

def runPrograms {m : Type → Type} [Monad m] [Files m] : List Text → m ProgramRuns
  | [] => return {}
  | path :: rest => do
      match ← Taint.Program.load path with
      | .error error => return { error? := some error }
      | .ok program =>
          let later ← runPrograms rest
          return { later with runs := .of program :: later.runs }

def ProgramRuns.findings (all : ProgramRuns) : List Report.ProgramFindings :=
  all.runs.map (·.findings)

def ProgramRuns.entries (all : ProgramRuns) : List Log.Entry := all.runs.flatMap (·.entries)

/-- The number of violations found in all programs that were run. -/
def ProgramRuns.violations (all : ProgramRuns) : Nat := Report.violationTotal all.findings

/-- Runs programs and reports their violations; a strict run with violations fails. -/
def runTaint {m : Type → Type} [Monad m] [Files m] (surroundings : Surroundings m)
    (settings : Settings) (invocation : Invocation) : m Outcome := do
  let options := invocation.options
  let all ← runPrograms invocation.arguments
  let event : Audit.Event := { command := "taint", inputs := invocation.arguments }
  match all.error? with
  | some error =>
      let recorded ←
        recordRun surroundings settings { event with error := error.message } {}
      return .failed (.program error) (all.entries ++ recorded)
  | none =>
      let metrics := Metrics.addViolations {} all.violations
      let recorded ←
        recordRun surroundings settings { event with violations := all.violations } metrics
      return {
        output :=
          if options.switch "json" then Report.violationDocument all.findings
          else Report.violationReport all.findings
        entries := all.entries ++ recorded
        error? :=
          if options.switch "strict" && all.violations > 0 then
            some (.violationsFound all.violations)
          else none }

end Shortfall.Command
