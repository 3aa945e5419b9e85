import Shortfall.Gap.Result
import Shortfall.Json.Printer
import Shortfall.Redaction
import Shortfall.Report

/-!
# The report of an analysis

Gaps are shown with secrets removed from their free text, for people or as JSON.
-/

namespace Shortfall.Report

open Gap

/-- The gap as it may be shown. -/
def redactGap (gap : SecurityGap) : SecurityGap :=
  { gap with
    testName := Redaction.redact gap.testName
    intention := Redaction.redact gap.intention
    actualImplementation := Redaction.redact gap.actualImplementation
    recommendations := gap.recommendations.map Redaction.redact }

/-- The result as it may be shown; the summary stays. -/
def redactResult (result : Result) : Result :=
  { result with gaps := result.gaps.map redactGap }

def gapLines (gap : SecurityGap) : List Text :=
  [[], lightRule,
    "  [" ++ gap.risk.name ++ "] " ++ gap.testName,
    "    Intention: " ++ gap.intention,
    "    Actual:    " ++ gap.actualImplementation]
  ++ (if gap.detectedBy.isEmpty then [] else [("    detected by " : Text) ++ gap.detectedBy])
  ++ (if gap.recommendations.isEmpty then []
      else ("    Recommendations:" : Text)
        :: gap.recommendations.map (("      - " : Text) ++ ·))

/-- The number of gaps, by risk. -/
def countLine (summary : Summary) : Text :=
  "  Gaps: " ++ Text.ofInt summary.total ++ "  (critical " ++ Text.ofInt summary.critical
    ++ ", high " ++ Text.ofInt summary.high ++ ", medium " ++ Text.ofInt summary.medium
    ++ ", low " ++ Text.ofInt summary.low ++ ")"

/-- The report for people. -/
def gapReport (result : Result) : Text :=
  let head := banner "Security Gap Analysis" ++ [countLine result.summary]
  if result.summary.total = 0 then lines (head ++ [[], "  No security gaps found."])
  else lines (head ++ result.gaps.flatMap gapLines ++ [lightRule])

/-! ## JSON -/

def gapJson (gap : SecurityGap) : Json :=
  let detected : List (Text × Json) :=
    if gap.detectedBy.isEmpty then [] else [("detectedBy", .string gap.detectedBy)]
  let members : List (Text × Json) := [
    ("testName", .string gap.testName),
    ("intention", .string gap.intention),
    ("actualImplementation", .string gap.actualImplementation),
    ("riskLevel", .string gap.risk.name),
    ("recommendations", .texts gap.recommendations)]
  .object (members ++ detected)

def summaryJson (summary : Summary) : Json := .object [
  ("totalGaps", .int summary.total),
  ("criticalGaps", .int summary.critical),
  ("highGaps", .int summary.high),
  ("mediumGaps", .int summary.medium),
  ("lowGaps", .int summary.low)]

/-- The report for programs. -/
def gapDocument (result : Result) : Text :=
  lines [Json.indented 0 (.object [
    ("gaps", .array (result.gaps.map gapJson)),
    ("summary", summaryJson result.summary)])]

end Shortfall.Report
