import Shortfall.Gap.Matching

/-!
# Strategies

A strategy is a named way to look for gaps. It may decline a request before it starts; when it
runs it finds gaps, has nothing to say, fails, or breaks off. Strategies need not be trustworthy:
everything they can do is a value of `Outcome`, and the detector goes on from there.
-/

namespace Shortfall.Gap

/-- Why a strategy gives no gaps. -/
inductive Failure where
  /-- It declined the request. -/
  | rejected
  /-- It broke off with a message. -/
  | panicked (message : Text)
  /-- The request misses a part. -/
  | invalid (error : InputError)
  /-- It reported an error of its own. -/
  | reported (message : Text)
  deriving DecidableEq, Repr

def Failure.message : Failure → Text
  | rejected => "strategy rejected its input"
  | panicked message => "strategy panicked: " ++ message
  | invalid error => error.message
  | reported message => message

/-- How a strategy ends. -/
inductive Outcome where
  | found (result : Result)
  | nothing
  | failed (failure : Failure)
  deriving DecidableEq, Repr

structure Strategy where
  name : Text
  accepts : Request → Bool
  analyze : Request → Outcome

namespace Strategy

def defaultKey : Text := "default"

def semanticKey : Text := "semantic"

def riskBasedKey : Text := "risk-based"

def coverageBasedKey : Text := "coverage-based"

/-- A strategy that finds gaps in complete requests. -/
def ofFinder (name : Text) (catalog : Catalog) (gaps : Finder → Input → List SecurityGap) :
    Strategy where
  name := name
  accepts := Request.isComplete
  analyze request :=
    match request.input with
    | .error error => .failed (.invalid error)
    | .ok input => .found (.ofGaps (gaps { catalog, name } input))

/-- Looks for gaps of every kind. -/
def default (catalog : Catalog) : Strategy := ofFinder defaultKey catalog Finder.defaultGaps

/-- Compares every test with every vulnerability, also by the description of the test. A related
pair gives the same gap as with the default strategy. -/
def semantic (catalog : Catalog) : Strategy := ofFinder semanticKey catalog Finder.semanticGaps

/-- Looks for risk that is declared too low. -/
def riskBased (catalog : Catalog) : Strategy := ofFinder riskBasedKey catalog Finder.mismatchGaps

/-- Looks for vulnerabilities that no test covers. -/
def coverageBased (catalog : Catalog) : Strategy :=
  ofFinder coverageBasedKey catalog Finder.orphanGaps

end Strategy

end Shortfall.Gap
