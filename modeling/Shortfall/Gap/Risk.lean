import Shortfall.Taint.Violation

/-!
# Risk

The four-point scale on which gaps and test intents are graded: low < medium < high < critical.
A risk is carried as its rank; a rank outside the scale can be written down, and whoever needs a
point of the scale says how it is read.
-/

namespace Shortfall.Gap

/-- A risk, given by its rank. -/
structure Risk where
  rank : Int
  deriving DecidableEq, Repr

namespace Risk

def low : Risk := ⟨0⟩

def medium : Risk := ⟨1⟩

def high : Risk := ⟨2⟩

def critical : Risk := ⟨3⟩

instance : Inhabited Risk := ⟨low⟩

/-- The scale, ascending. -/
def scale : List Risk := [low, medium, high, critical]

def name (risk : Risk) : Text :=
  if risk = low then "LOW"
  else if risk = medium then "MEDIUM"
  else if risk = high then "HIGH"
  else if risk = critical then "CRITICAL"
  else "RISK(" ++ Text.ofInt risk.rank ++ ")"

/-- A text that names no risk. -/
structure Unknown where
  text : Text
  deriving DecidableEq, Repr

def Unknown.message (e : Unknown) : Text := "unknown risk level " ++ e.text.quoted

/-- Reads a name of the scale in any case and with white space around it. -/
def parse (text : Text) : Except Unknown Risk :=
  match scale.find? fun risk => risk.name = text.trim.upper with
  | some risk => .ok risk
  | none => .error ⟨text⟩

/-- The severity of violations of this risk; ranks outside the scale count as low. -/
def taintSeverity (risk : Risk) : Taint.Severity := .ofRank risk.rank

/-- The risk of violations of a severity. -/
def ofTaintSeverity (severity : Taint.Severity) : Risk := ⟨severity.rank⟩

end Risk

/-- The severity of a vulnerability, as its scanner wrote it. -/
abbrev Severity := Text

namespace Severity

def critical : Severity := "CRITICAL"

/-- The risk a severity stands for; one that is not on the scale counts as medium. -/
def risk (severity : Severity) : Risk :=
  let key := Text.upper (Text.trim severity)
  if key = critical then .critical
  else if key = "HIGH" then .high
  else if key = "LOW" then .low
  else .medium

/-- Whether a severity is the highest, in any case. -/
def isCritical (severity : Severity) : Bool := Text.equalFold (Text.trim severity) critical

end Severity

end Shortfall.Gap
