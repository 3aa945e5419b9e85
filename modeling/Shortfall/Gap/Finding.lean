import Shortfall.Gap.Risk

/-!
# What scanners and extractors report

A vulnerability is a finding of a scanner; a test intent says what a test claims to verify. Both
come with a summary by their producers, which is carried along and not trusted. A list that was
missing from a report is told apart from an empty one.
-/

namespace Shortfall.Gap

/-- A position in a file. -/
structure Location where
  file : Text := []
  line : Int := 0
  column : Int := 0
  deriving DecidableEq, Repr, Inhabited

/-- The file, with the line where one is known. -/
def Location.text (location : Location) : Text :=
  if location.file.isEmpty then []
  else if location.line = 0 then location.file
  else location.file ++ ":" ++ Text.ofInt location.line

structure Vulnerability where
  id : Text := []
  type : Text := []
  severity : Severity := []
  source : Location := {}
  sink : Location := {}
  dataFlow : List Text := []
  deriving DecidableEq, Repr, Inhabited

structure TaintSummary where
  totalVulnerabilities : Int := 0
  highSeverity : Int := 0
  mediumSeverity : Int := 0
  lowSeverity : Int := 0
  deriving DecidableEq, Repr, Inhabited

structure TaintReport where
  /-- Nothing when the report has no such list. -/
  vulnerabilities? : Option (List Vulnerability) := none
  summary : TaintSummary := {}
  deriving DecidableEq, Repr, Inhabited

structure TestIntent where
  testName : Text := []
  expectedBehavior : Text := []
  securityRequirements : List Text := []
  risk : Risk := .low
  deriving DecidableEq, Repr, Inhabited

structure IntentSummary where
  totalTests : Int := 0
  highRiskTests : Int := 0
  mediumRiskTests : Int := 0
  lowRiskTests : Int := 0
  deriving DecidableEq, Repr, Inhabited

structure IntentReport where
  /-- Nothing when the report has no such list. -/
  testIntents? : Option (List TestIntent) := none
  summary : IntentSummary := {}
  deriving DecidableEq, Repr, Inhabited

end Shortfall.Gap
