import Shortfall.Text.Case

/-!
# Statements

The line-oriented view of one statement in a test body. Which of the fields matter depends on
the kind of the statement; a kind outside the known five is kept by its name.
-/

namespace Shortfall.Taint

/-- What a statement does to the data it names. -/
inductive Kind where
  | sanitizer
  | userInput
  | assignment
  | methodCall
  | assertion
  | other (name : Text)
  deriving DecidableEq, Repr

namespace Kind

def name : Kind → Text
  | sanitizer => "sanitizer"
  | userInput => "userInput"
  | assignment => "assignment"
  | methodCall => "methodCall"
  | assertion => "assertion"
  | other name => name

def ofName (name : Text) : Kind :=
  if name = "sanitizer" then sanitizer
  else if name = "userInput" then userInput
  else if name = "assignment" then assignment
  else if name = "methodCall" then methodCall
  else if name = "assertion" then assertion
  else other name

theorem name_ofName (text : Text) : (ofName text).name = text := by
  grind [ofName, name]

end Kind

structure Statement where
  kind : Kind
  /-- The variable the statement writes, if any. -/
  target : Text := []
  /-- The right-hand side of an assignment, or the value an assertion looks at. -/
  expression : Text := []
  method : Text := []
  args : List Text := []
  /-- Marks assertions that expect the value to be rejected. -/
  negative : Bool := false
  /-- The kind of origin of a user input. -/
  source : Text := []
  /-- The security-sensitive operation reached by the values read here, if any. -/
  sink : Text := []
  line : Int := 0
  deriving DecidableEq, Repr

/-- Whether the statement writes its target. An assertion never does. -/
def Statement.writes (stmt : Statement) : Bool := !stmt.target.isEmpty && stmt.kind ≠ .assertion

/-- The words that make a method look like a sanitizer. -/
def sanitizerWords : List Text := [
  "escape", "sanitize", "validate", "clean", "filter", "htmlescape", "sqlescape", "jsescape",
  "urlencode"]

/-- Whether a method's name holds a sanitizer word, in any case. -/
def isSanitizerName (method : Text) : Bool :=
  sanitizerWords.any fun word => word.occursIn method.lower

end Shortfall.Taint
