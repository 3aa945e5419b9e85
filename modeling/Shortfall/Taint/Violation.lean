import Shortfall.Taint.State

/-!
# Violations

What the state of an analysis says about the security of the test: tainted data that reaches a
security-sensitive operation, and assertions that accept tainted data. The findings are read off
the state and not kept in it.
-/

namespace Shortfall.Taint

/-- How grave a violation is. -/
inductive Severity where
  | low
  | medium
  | high
  | critical
  deriving DecidableEq, Repr

namespace Severity

def name : Severity → Text
  | low => "low"
  | medium => "medium"
  | high => "high"
  | critical => "critical"

/-- The severity of a rank; a rank without one of its own counts as low. -/
def ofRank (rank : Int) : Severity :=
  if rank = 3 then critical else if rank = 2 then high else if rank = 1 then medium else low

def rank : Severity → Int
  | low => 0
  | medium => 1
  | high => 2
  | critical => 3

end Severity

/-- The kind of a violation. The analysis itself finds unsanitized flows and unsafe assertions;
other kinds come from outside. -/
abbrev ViolationKind := Text

namespace ViolationKind

def unsanitizedFlow : ViolationKind := "unsanitized-taint-flow"

def missingSanitizer : ViolationKind := "missing-sanitizer"

def unsafeAssertion : ViolationKind := "unsafe-assertion"

def sqlInjection : ViolationKind := "sql-injection"

def xss : ViolationKind := "xss"

def commandInjection : ViolationKind := "command-injection"

def pathTraversal : ViolationKind := "path-traversal"

end ViolationKind

structure Violation where
  kind : ViolationKind
  severity : Severity
  message : Text := []
  /-- The variable at fault, or nothing. -/
  culprit : Text := []
  level : Level := .untainted
  provenance? : Option Provenance := none
  suggestedFix : Text := []
  deriving DecidableEq, Repr

/-- User input that is certainly tainted is critical; below that the level decides. -/
def flowSeverity (provenance : Provenance) (level : Level) : Severity :=
  if provenance.primarySource = Source.userInput && level = .tainted then .critical
  else if level.atLeast .tainted then .high
  else if level = .possiblyTainted then .medium
  else .low

/-- The advice for data from a source. -/
def fixFor (source : Source) : Text :=
  if source = Source.userInput then "Escape or validate user input before it reaches the sink"
  else if source = Source.externalApi then
    "Parse external API responses with a strict, safe parser before use"
  else if source = Source.database then "Escape values read from the database before reuse"
  else "Sanitize the value before it reaches a security-sensitive sink"

/-- The violation of a tainted variable that reaches a sink. -/
def Violation.ofFlow (variableName : Text) (level : Level) (provenance : Provenance)
    (sink : Sink) : Violation where
  kind := .unsanitizedFlow
  severity := flowSeverity provenance level
  message := "tainted variable " ++ variableName.quoted ++ " from " ++ provenance.primarySource
    ++ " reaches sink " ++ sink.name ++ " without sanitization"
  culprit := variableName
  level := level
  provenance? := some provenance
  suggestedFix := fixFor provenance.primarySource

/-- The violation of an assertion that accepts tainted data. -/
def Violation.ofAdvisory (advisory : Advisory) : Violation where
  kind := .unsafeAssertion
  severity := .high
  message := "assertion checks tainted value " ++ advisory.expression.quoted
    ++ " without expecting rejection"
  culprit := advisory.variableNames.headD []
  level := advisory.level
  suggestedFix :=
    "Assert that unsanitized input is rejected, or sanitize it before asserting on it"

namespace State

/-- The violation a variable with the given provenance amounts to, if any. -/
def flowViolation? (σ : State) (name : Text) (provenance : Provenance) : Option Violation :=
  match provenance.sinks with
  | [] => none
  | sink :: _ =>
      if (σ.level name).atLeast .tainted then
        some (.ofFlow name (σ.level name) provenance sink)
      else none

/-- The violations of the state: the tainted variables that reach a sink, by name, and then the
advisories in the order they were raised. -/
def violations (σ : State) : List Violation :=
  σ.provenances.entries.filterMap (fun (name, provenance) => σ.flowViolation? name provenance)
    ++ σ.advisories.map .ofAdvisory

end State

end Shortfall.Taint
