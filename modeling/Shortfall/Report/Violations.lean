import Shortfall.Json.Printer
import Shortfall.Redaction
import Shortfall.Report
import Shortfall.Taint.Violation

/-!
# The report of statement programs

The violations of each program, for people or as JSON. For people, secrets are removed from the
variable and the message.
-/

namespace Shortfall.Report

open Taint

/-- A program with what was found in it. -/
structure ProgramFindings where
  program : Text
  violations : List Violation
  deriving DecidableEq, Repr

def sinkLines (violation : Violation) : List Text :=
  match violation.provenance? with
  | none => []
  | some provenance =>
      if provenance.sinks.isEmpty then []
      else [("    Sinks: " : Text) ++ commas (provenance.sinks.map (·.name))]

def violationLines (violation : Violation) : List Text :=
  [("  [" : Text) ++ violation.severity.name.upper ++ "] " ++ violation.kind ++ "  "
      ++ Redaction.redact violation.culprit,
    ("    " : Text) ++ Redaction.redact violation.message]
  ++ sinkLines violation
  ++ (if violation.suggestedFix.isEmpty then []
      else [("    Fix:   " : Text) ++ violation.suggestedFix])

def findingLines (findings : ProgramFindings) : List Text :=
  banner ("Taint program: " ++ findings.program)
  ++ (if findings.violations.isEmpty then [("  No security invariant violations." : Text)]
      else findings.violations.flatMap violationLines)
  ++ [[]]

def violationTotal (all : List ProgramFindings) : Nat :=
  all.foldl (fun count findings => count + findings.violations.length) 0

/-- The report for people. -/
def violationReport (all : List ProgramFindings) : Text :=
  lines (all.flatMap findingLines
    ++ [Text.ofNat (violationTotal all) ++ " violation(s) in " ++ Text.ofNat all.length
      ++ " program(s)"])

/-! ## JSON -/

/-- A member that is left out when a condition fails. -/
def presentIf (present : Bool) (name : Text) (value : Json) : List (Text × Json) :=
  if present then [(name, value)] else []

def nameMember (sink : Sink) : List (Text × Json) := [("name", .string sink.name)]

def sinkJson (sink : Sink) : Json :=
  .object (nameMember sink ++ presentIf (!sink.kind.isEmpty) "kind" (.string sink.kind)
    ++ presentIf (sink.line ≠ 0) "line" (.int sink.line))

def provenanceJson (provenance : Provenance) : Json :=
  .object (presentIf (!provenance.sources.isEmpty) "sources" (.texts provenance.sources)
    ++ presentIf (!provenance.sinks.isEmpty) "sinks" (.array (provenance.sinks.map sinkJson)))

def violationJson (violation : Violation) : Json :=
  let head : List (Text × Json) := [
    ("kind", .string violation.kind),
    ("severity", .string violation.severity.name),
    ("message", .string violation.message)]
  let level : List (Text × Json) := [("taintLevel", .string violation.level.name)]
  let metadata : List (Text × Json) :=
    match violation.provenance? with
    | some provenance => [("metadata", provenanceJson provenance)]
    | none => []
  .object (head ++ presentIf (!violation.culprit.isEmpty) "variable" (.string violation.culprit)
    ++ level ++ metadata
    ++ presentIf (!violation.suggestedFix.isEmpty) "suggestedFix" (.string violation.suggestedFix))

def findingJson (findings : ProgramFindings) : Json := .object [
  ("program", .string findings.program),
  ("violations", .array (findings.violations.map violationJson))]

/-- The report for programs. -/
def violationDocument (all : List ProgramFindings) : Text :=
  lines [Json.indented 0 (.array (all.map findingJson))]

end Shortfall.Report
