import Shortfall.Audit
import Shortfall.Calendar
import Shortfall.Report
import Shortfall.Word

/-!
# The report of past runs
-/

namespace Shortfall.Report

open Audit

def gapLine (summary : Gap.Summary) : Text :=
  "     Gaps: " ++ Text.ofInt summary.total ++ " (critical " ++ Text.ofInt summary.critical
    ++ ", high " ++ Text.ofInt summary.high ++ ", medium " ++ Text.ofInt summary.medium
    ++ ", low " ++ Text.ofInt summary.low ++ ")"

def eventLines (event : Event) : List Text :=
  let status : Text := if event.error.isEmpty then "ok  " else "FAIL"
  [status ++ " " ++ Calendar.display event.timestamp ++ " " ++ event.command.padRight 8 ++ " "
      ++ event.runId]
  ++ (if event.inputs.isEmpty then [] else [("     Inputs: " : Text) ++ commas event.inputs])
  ++ (if event.strategy.isEmpty then []
      else [("     Strategies: " : Text) ++ commas (event.strategy :: event.additional)])
  ++ (event.summary?.map gapLine).toList
  ++ (if event.violations > 0 then
        [("     Violations: " : Text) ++ Text.ofInt event.violations]
      else [])
  ++ (if event.error.isEmpty then [] else [("     Error: " : Text) ++ event.error])
  ++ [[]]

/-- The runs, one after the other. -/
def runReport (events : List Event) : Text := lines (events.flatMap eventLines)

/-- A sum of 64-bit numbers. -/
def total (numbers : List Int) : Int := Int.bmod (numbers.foldl (· + ·) 0) Word.count

/-- The number of runs of a command. -/
def runsOf (command : Text) (events : List Event) : Nat :=
  events.countP fun event => event.command = command

/-- Counts over all runs. -/
def runSummary (events : List Event) : Text :=
  let summaries := events.filterMap (·.summary?)
  lines (banner "secgap Audit Summary" ++ [
    "  Total runs:      " ++ Text.ofNat events.length,
    "  analyze:         " ++ Text.ofNat (runsOf "analyze" events),
    "  taint:           " ++ Text.ofNat (runsOf "taint" events),
    "  Failed:          " ++ Text.ofNat (events.countP fun event => !event.error.isEmpty),
    "  Gaps reported:   " ++ Text.ofInt (total (summaries.map (·.total))) ++ " ("
      ++ Text.ofInt (total (summaries.map (·.critical))) ++ " critical)",
    "  Violations:      " ++ Text.ofInt (total (events.map (·.violations))),
    heavyRule,
    "  First run:       " ++ Calendar.display ((events.head?.map (·.timestamp)).getD []),
    "  Last run:        " ++ Calendar.display ((events.getLast?.map (·.timestamp)).getD []),
    []])

end Shortfall.Report
