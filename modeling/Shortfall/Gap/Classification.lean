import Shortfall.Catalog
import Shortfall.Gap.Finding

/-!
# Violations as vulnerabilities

The violations found in one test are handed to the gap analysis as vulnerabilities. Their category
comes from the kind of the violation where that is specific, and otherwise from the sinks that the
data reaches.
-/

namespace Shortfall.Gap

open Taint

/-- The category of the violation kinds that name one. -/
def specificCategory? (kind : ViolationKind) : Option Text :=
  if kind = ViolationKind.sqlInjection then some "SQL_INJECTION"
  else if kind = ViolationKind.xss then some "XSS"
  else if kind = ViolationKind.commandInjection then some "COMMAND_INJECTION"
  else if kind = ViolationKind.pathTraversal then some "PATH_TRAVERSAL"
  else none

/-- The first category that the name of a sink relates to. -/
def sinkCategory? (catalog : Catalog) (sink : Sink) : Option Text :=
  (catalog.categories.find? fun category => catalog.relates sink.name category.id).map (·.id)

/-- The sinks that a violation is known to reach. -/
def reachedSinks (violation : Violation) : List Sink :=
  match violation.provenance? with
  | some provenance => provenance.sinks
  | none => []

/-- The category of a violation: that of its kind, else that of the first sink with one, else the
kind itself as a tag. -/
def categoryOf (catalog : Catalog) (violation : Violation) : Text :=
  match specificCategory? violation.kind with
  | some category => category
  | none =>
      match (reachedSinks violation).findSome? (sinkCategory? catalog) with
      | some category => category
      | none => Catalog.normalizeId violation.kind

/-- The violation with the given number in a unit, as a vulnerability. -/
def Vulnerability.ofViolation (catalog : Catalog) (unit : Text) (number : Nat)
    (violation : Violation) : Vulnerability :=
  let sinks := reachedSinks violation
  { id := unit ++ "#" ++ Text.ofNat number
    type := categoryOf catalog violation
    severity := (Risk.ofTaintSeverity violation.severity).name
    source := { file := unit }
    sink := { file := unit, line := ((sinks.map (·.line)).find? (· ≠ 0)).getD 0 }
    dataFlow := (if violation.culprit.isEmpty then [] else [violation.culprit])
      ++ sinks.map (·.name) }

/-- The violations of a unit, numbered from `first` on. -/
def vulnerabilitiesFrom (catalog : Catalog) (unit : Text) (first : Nat) :
    List Violation → List Vulnerability
  | [] => []
  | violation :: rest =>
      .ofViolation catalog unit first violation :: vulnerabilitiesFrom catalog unit (first + 1) rest

/-- The violations of a unit as vulnerabilities, numbered in order. -/
def vulnerabilitiesOf (catalog : Catalog) (unit : Text) (violations : List Violation) :
    List Vulnerability :=
  vulnerabilitiesFrom catalog unit 1 violations

end Shortfall.Gap
