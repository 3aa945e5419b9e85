import Shortfall.Metrics
import Shortfall.Files

/-!
# Metrics as a text file

The counters in the text format that monitoring systems collect: for each family its purpose and
its type, and then its series. Runs of strategies are timed by counting them; their durations are
not kept.
-/

namespace Shortfall.Metrics

/-- A value of a label, with quotes, backslashes and line ends escaped. -/
def escapeLabel (value : Text) : Text :=
  value.flatMap fun byte =>
    if byte = 0x5C then [0x5C, 0x5C]
    else if byte = 0x22 then [0x5C, 0x22]
    else if byte = 0x0A then [0x5C, 0x6E]
    else [byte]

def labelText (labels : List (Text × Text)) : Text :=
  if labels.isEmpty then []
  else "\x7b" ++ Text.joinWith ","
    (labels.map fun (name, value) => name ++ "=\"" ++ escapeLabel value ++ "\"") ++ "\x7d"

/-- The line of a series; `ending` tells apart the lines of one family. -/
def Series.line (ending : Text) (series : Series) : Text :=
  "secgap_" ++ series.family ++ ending ++ labelText series.labels ++ " " ++ Text.ofNat series.count
    ++ "\n"

/-- A family of series. One without series is not shown. -/
structure Family where
  name : Text
  help : Text
  type : Text
  /-- The lines of one series. -/
  body : Series → Text
  series : List Series

def Family.text (family : Family) : Text :=
  if family.series.isEmpty then []
  else
    "# HELP secgap_" ++ family.name ++ " " ++ family.help ++ "\n"
      ++ "# TYPE secgap_" ++ family.name ++ " " ++ family.type ++ "\n"
      ++ family.series.flatMap family.body

/-- The lines of a duration: all runs are within the last bucket. -/
def durationBody (series : Series) : Text :=
  Series.line "_bucket" { series with labels := series.labels.concat ("le", "+Inf") }
    ++ series.line "_count"

def families (metrics : Metrics) : List Family := [
  { name := "analysis_runs_total"
    help := "Gap analysis runs by outcome."
    type := "counter"
    body := Series.line []
    series := metrics.analysisRuns },
  { name := "gaps_total"
    help := "Security gaps reported, by risk level."
    type := "counter"
    body := Series.line []
    series := metrics.gapCounts },
  { name := "strategy_duration_seconds"
    help := "Time spent in each gap strategy."
    type := "histogram"
    body := durationBody
    series := metrics.durations },
  { name := "strategy_runs_total"
    help := "Gap strategy invocations by strategy and outcome."
    type := "counter"
    body := Series.line []
    series := metrics.strategyRuns },
  { name := "taint_violations_total"
    help := "Security invariant violations found by taint programs."
    type := "counter"
    body := Series.line []
    series := [metrics.violationCount] }]

def exposition (metrics : Metrics) : Text := metrics.families.flatMap Family.text

/-- A file that the metrics could not be written to. -/
structure WriteError where
  error : Files.Error
  deriving DecidableEq, Repr

def WriteError.message (e : WriteError) : Text := "writing metrics textfile: " ++ e.error.message

def writeTo {m : Type → Type} [Monad m] [Files m] (metrics : Metrics) (path : Text) :
    m (Except WriteError PUnit) := do
  match ← Files.write path metrics.exposition with
  | .error error => return .error ⟨error⟩
  | .ok _ => return .ok ⟨⟩

end Shortfall.Metrics
