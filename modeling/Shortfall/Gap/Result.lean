import Shortfall.Gap.Risk

/-!
# Gaps and their summary

A gap is a mismatch between what a test claims to verify and what was found. Two gaps with the
same test, intention and implementation are the same gap, whoever found them, and the first of
them is kept.
-/

namespace Shortfall.Gap

structure SecurityGap where
  testName : Text := []
  intention : Text := []
  actualImplementation : Text := []
  risk : Risk := .low
  recommendations : List Text := []
  /-- The strategy that found the gap. -/
  detectedBy : Text := []
  deriving DecidableEq, Repr, Inhabited

/-- What makes two gaps the same. -/
def SecurityGap.key (gap : SecurityGap) : Text × Text × Text :=
  (gap.testName, gap.intention, gap.actualImplementation)

/-- The first gap of each key, in order. `seen` holds the keys met before. -/
def firstOfEachKey (seen : List (Text × Text × Text)) : List SecurityGap → List SecurityGap
  | [] => []
  | gap :: rest =>
      if gap.key ∈ seen then firstOfEachKey seen rest
      else gap :: firstOfEachKey (gap.key :: seen) rest

/-- The gaps without repetitions; of gaps with one key the first is kept. -/
def deduplicate (gaps : List SecurityGap) : List SecurityGap := firstOfEachKey [] gaps

/-- How many gaps there are of each risk. -/
structure Summary where
  total : Int := 0
  critical : Int := 0
  high : Int := 0
  medium : Int := 0
  low : Int := 0
  deriving DecidableEq, Repr, Inhabited

namespace Summary

/-- Counts gaps by risk. A rank above the scale counts as critical and one below as low. -/
def ofGaps (gaps : List SecurityGap) : Summary :=
  let critical : Int := gaps.countP fun gap => gap.risk.rank ≥ Risk.critical.rank
  let high : Int := gaps.countP fun gap => gap.risk = .high
  let medium : Int := gaps.countP fun gap => gap.risk = .medium
  let low : Int := gaps.countP fun gap => gap.risk.rank ≤ Risk.low.rank
  { total := critical + high + medium + low, critical, high, medium, low }

/-- The number of gaps of a risk; outside the scale, that of the low ones. -/
def count (summary : Summary) (risk : Risk) : Int :=
  if risk = .critical then summary.critical
  else if risk = .high then summary.high
  else if risk = .medium then summary.medium
  else summary.low

end Summary

/-- The outcome of an analysis. -/
structure Result where
  gaps : List SecurityGap
  summary : Summary
  deriving DecidableEq, Repr, Inhabited

/-- The gaps with their summary. -/
def Result.ofGaps (gaps : List SecurityGap) : Result where
  gaps := gaps
  summary := .ofGaps gaps

end Shortfall.Gap
