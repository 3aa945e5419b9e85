import Shortfall.Text

/-!
# Log entries

The tool reports on its own work through log entries. They are values: an operation that has
something to report returns entries, and only the outermost layer decides which of them are
written, and how (`Shortfall.Log.Encoding`).
-/

namespace Shortfall.Log

/-- How grave an entry is; a log shows the entries at or above its threshold. -/
inductive Severity where
  | debug
  | info
  | warn
  | error
  | dpanic
  | panic
  | fatal
  deriving DecidableEq, Repr

namespace Severity

def rank : Severity → Nat
  | debug => 0
  | info => 1
  | warn => 2
  | error => 3
  | dpanic => 4
  | panic => 5
  | fatal => 6

/-- The name in lower case, as a threshold is written. -/
def name : Severity → Text
  | debug => "debug"
  | info => "info"
  | warn => "warn"
  | error => "error"
  | dpanic => "dpanic"
  | panic => "panic"
  | fatal => "fatal"

def all : List Severity := [debug, info, warn, error, dpanic, panic, fatal]

/-- Whether a log with the given threshold shows entries of this severity. -/
def shownAt (severity threshold : Severity) : Bool := threshold.rank ≤ severity.rank

end Severity

/-- What a field of an entry holds. -/
inductive Value where
  | text (text : Text)
  | texts (texts : List Text)
  | number (n : Int)
  | flag (b : Bool)
  deriving DecidableEq, Repr

structure Entry where
  severity : Severity
  message : Text
  fields : List (Text × Value) := []
  deriving DecidableEq, Repr

end Shortfall.Log
