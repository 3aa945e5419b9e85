import Shortfall.Binary64
import Shortfall.Gap.Detector

/-!
# Metrics

Counters of what the tool did: analyses by outcome, runs of strategies by outcome, gaps by risk
and violations. Counters only grow.

The name of a strategy is a label of its counters, and labels are well-formed text. A recorder
breaks off at any other name, and with it the analysis that tells of the strategy: `recordAll?` is
what a recorder counts of a list of observations, and `observeAll` what it comes to where all names
are labels, as those of the built-in strategies are.
-/

namespace Shortfall

/-- How often a strategy was run, and how many of the runs were timed. -/
structure StrategyTally where
  succeeded : Nat := 0
  failed : Nat := 0
  timed : Nat := 0
  deriving DecidableEq, Repr, Inhabited

structure Metrics where
  successes : Nat := 0
  failures : Nat := 0
  /-- Analyses that ended for want of input. -/
  invalid : Nat := 0
  strategies : NameMap StrategyTally := .empty
  lowGaps : Nat := 0
  mediumGaps : Nat := 0
  highGaps : Nat := 0
  criticalGaps : Nat := 0
  violations : Nat := 0

namespace Metrics

/-- The counter of gaps of a risk. -/
def gaps (metrics : Metrics) (risk : Gap.Risk) : Nat :=
  if risk = .critical then metrics.criticalGaps
  else if risk = .high then metrics.highGaps
  else if risk = .medium then metrics.mediumGaps
  else metrics.lowGaps

/-- Counts the gaps of a summary. -/
def addSummary (metrics : Metrics) (summary : Gap.Summary) : Metrics :=
  { metrics with
    lowGaps := metrics.lowGaps + (summary.count .low).toNat
    mediumGaps := metrics.mediumGaps + (summary.count .medium).toNat
    highGaps := metrics.highGaps + (summary.count .high).toNat
    criticalGaps := metrics.criticalGaps + (summary.count .critical).toNat }

/-- How an analysis ended. -/
inductive Ending where
  | success
  | invalid
  | failure
  deriving DecidableEq, Repr

def Ending.name : Ending → Text
  | success => "success"
  | invalid => "invalid"
  | failure => "failure"

def addEnding (metrics : Metrics) : Ending → Metrics
  | .success => { metrics with successes := metrics.successes + 1 }
  | .invalid => { metrics with invalid := metrics.invalid + 1 }
  | .failure => { metrics with failures := metrics.failures + 1 }

/-- Missing input makes an analysis invalid, also where a strategy reports it. -/
def Ending.ofError (error : Gap.AnalysisError) : Ending :=
  if error.inputError?.isSome then .invalid else .failure

def addRun (metrics : Metrics) (strategy : Text) (succeeded : Bool) : Metrics :=
  let tally := (metrics.strategies.get? strategy).getD {}
  let tally :=
    if succeeded then { tally with succeeded := tally.succeeded + 1 }
    else { tally with failed := tally.failed + 1 }
  { metrics with
    strategies := metrics.strategies.insert strategy { tally with timed := tally.timed + 1 } }

/-- Counts violations. An amount is rounded to a floating-point number before it is added, and
the sum is kept as an integer of 64 bits. -/
def addViolations (metrics : Metrics) (n : Int) : Metrics :=
  { metrics with
    violations := (metrics.violations + Binary64.roundNat n.toNat) % Word.count }

def observe (metrics : Metrics) : Gap.Observation → Metrics
  | .strategy name succeeded => metrics.addRun name succeeded
  | .analysis (.ok summary) => (metrics.addEnding .success).addSummary summary
  | .analysis (.error error) => metrics.addEnding (.ofError error)

def observeAll (metrics : Metrics) (observations : List Gap.Observation) : Metrics :=
  observations.foldl observe metrics

/-- Whether a recorder takes the observation: the name of a strategy must be a label. -/
def takes : Gap.Observation → Bool
  | .strategy name _ => name.isWellFormed
  | .analysis _ => true

/-- Counts an observation, unless the recorder breaks off at it. -/
def record? (metrics : Metrics) (observation : Gap.Observation) : Option Metrics :=
  if takes observation then some (metrics.observe observation) else none

def recordAll? (metrics : Metrics) (observations : List Gap.Observation) : Option Metrics :=
  observations.foldlM record? metrics

/-! ## Series -/

/-- A series of a counter family: its labels in the order of their names, and its count. -/
structure Series where
  family : Text
  labels : List (Text × Text)
  count : Nat
  deriving DecidableEq, Repr

/-- The series of a counter that are present from its first event on. -/
def Series.ofEvents (family : Text) (labels : List (Text × Text)) (count : Nat) : List Series :=
  if count = 0 then [] else [{ family, labels, count }]

def analysisRuns (metrics : Metrics) : List Series :=
  [("failure", metrics.failures), ("invalid", metrics.invalid),
    ("success", metrics.successes)].map fun (outcome, count) =>
      { family := "analysis_runs_total", labels := [("outcome", outcome)], count }

def gapCounts (metrics : Metrics) : List Series :=
  [Gap.Risk.critical, .high, .low, .medium].map fun risk =>
    { family := "gaps_total", labels := [("risk_level", risk.name)], count := metrics.gaps risk }

/-- How often each strategy was timed. -/
def durations (metrics : Metrics) : List Series :=
  metrics.strategies.entries.flatMap fun (name, tally) =>
    Series.ofEvents "strategy_duration_seconds" [("strategy", name)] tally.timed

/-- The runs of the strategies, those that failed first. -/
def strategyRuns (metrics : Metrics) : List Series :=
  (metrics.strategies.entries.flatMap fun (name, tally) =>
    Series.ofEvents "strategy_runs_total" [("outcome", "failure"), ("strategy", name)] tally.failed)
  ++ metrics.strategies.entries.flatMap fun (name, tally) =>
    Series.ofEvents "strategy_runs_total" [("outcome", "success"), ("strategy", name)]
      tally.succeeded

/-- The number of violations, shown as the floating-point number nearest to it. -/
def violationCount (metrics : Metrics) : Series :=
  { family := "taint_violations_total", labels := [],
    count := Binary64.roundNat metrics.violations }

/-- All series, by family. -/
def series (metrics : Metrics) : List Series :=
  metrics.analysisRuns ++ metrics.gapCounts ++ metrics.durations ++ metrics.strategyRuns
    ++ [metrics.violationCount]

end Metrics

end Shortfall
