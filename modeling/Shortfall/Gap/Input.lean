import Shortfall.Gap.Finding

/-!
# The input of an analysis

An analysis needs both reports, each with its list. What is missing is told apart, so that a
producer can be told which part of its report to mend.
-/

namespace Shortfall.Gap

/-- The part of the input that is missing. -/
inductive InputError where
  | noIntent
  | noTestIntents
  | noTaint
  | noVulnerabilities
  deriving DecidableEq, Repr

namespace InputError

/-- The report at fault. -/
def argument : InputError → Text
  | noIntent | noTestIntents => "intent"
  | noTaint | noVulnerabilities => "vulnerabilities"

/-- The field at fault; empty when the whole report is missing. -/
def field : InputError → Text
  | noIntent | noTaint => []
  | noTestIntents => "testIntents"
  | noVulnerabilities => "vulnerabilities"

def message (e : InputError) : Text :=
  if e.field.isEmpty then "invalid " ++ e.argument ++ ": value is nil"
  else "invalid " ++ e.argument ++ ": missing required field " ++ e.field.quoted

end InputError

/-- The two reports as they are handed in. -/
structure Request where
  intent? : Option IntentReport := none
  taint? : Option TaintReport := none
  deriving DecidableEq, Repr

/-- The lists that an analysis compares. -/
structure Input where
  intents : List TestIntent
  vulnerabilities : List Vulnerability
  deriving DecidableEq, Repr

/-- The lists of a request, or the first part that is missing. -/
def Request.input (request : Request) : Except InputError Input :=
  match request.intent? with
  | none => .error .noIntent
  | some intent =>
      match intent.testIntents? with
      | none => .error .noTestIntents
      | some intents =>
          match request.taint? with
          | none => .error .noTaint
          | some taint =>
              match taint.vulnerabilities? with
              | none => .error .noVulnerabilities
              | some vulnerabilities => .ok { intents, vulnerabilities }

/-- Whether nothing is missing from a request. -/
def Request.isComplete (request : Request) : Bool :=
  match request.input with
  | .ok _ => true
  | .error _ => false

end Shortfall.Gap
