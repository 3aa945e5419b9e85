import Shortfall.Taint.Expression
import Shortfall.Taint.Statement
import Shortfall.Taint.Violation

/-!
# Running statements

`transfer` gives the level a statement produces from the level that flows into it, and notes an
advisory where an assertion accepts tainted data. `step` makes a statement part of a straight-line
run: its result is computed from an untainted input and stored in its target, so an assignment
redefines the variable. Provenance moves with the data. A user input starts a new list of
sources, every other write takes over what the variables it reads are known for, and a statement
that names a sink attaches the sink to each variable it reads.

What `transfer` reports to the log is a separate function of the same arguments (`notice?`).
-/

namespace Shortfall.Taint

namespace State

/-- The least upper bound of the levels of several expressions. -/
def levelOfAll (σ : State) (expressions : List Text) : Level :=
  .joinAll (expressions.map fun expression => (σ.read expression).level)

/-- The advisory a statement gives rise to: an assertion on tainted data that does not expect a
rejection. -/
def advisory? (σ : State) (stmt : Statement) : Option Advisory :=
  let reading := σ.read stmt.expression
  if stmt.kind = .assertion && reading.level.atLeast .tainted && !stmt.negative then
    some { expression := stmt.expression, variableNames := reading.names, level := reading.level }
  else none

/-- The log entry for the advisory of a statement. -/
def notice? (σ : State) (stmt : Statement) : Option Log.Entry :=
  (σ.advisory? stmt).map fun advisory => {
    severity := .warn
    message := "assertion on tainted data"
    fields := [
      ("expression", .text advisory.expression),
      ("variables", .texts advisory.variableNames),
      ("level", .text advisory.level.name),
      ("line", .number stmt.line)] }

/-- The level a statement produces from the level that flows into it. A kind that is not
modelled passes the level on. -/
def outLevel (σ : State) (stmt : Statement) (input : Level) : Level :=
  match stmt.kind with
  | .sanitizer => .untainted
  | .userInput => .tainted
  | .assignment | .assertion => input.clamp.join (σ.read stmt.expression).level
  | .methodCall =>
      if isSanitizerName stmt.method then .untainted
      else input.clamp.join (σ.levelOfAll stmt.args)
  | .other _ => input.clamp

/-- Applies a statement to an incoming level. -/
def transfer (σ : State) (stmt : Statement) (input : Level) : State × Level :=
  (match σ.advisory? stmt with
   | some advisory => σ.advise advisory
   | none => σ,
   σ.outLevel stmt input)

/-- The variables a statement reads, ascending. A call of a sanitizer reads nothing. -/
def readSet (σ : State) (stmt : Statement) : List Text :=
  match stmt.kind with
  | .assignment | .assertion => (σ.read stmt.expression).names
  | .methodCall =>
      if isSanitizerName stmt.method then []
      else ascending (stmt.args.flatMap fun arg => (σ.read arg).names)
  | .sanitizer | .userInput | .other _ => []

/-- What is known about the value a statement writes. -/
def writtenProvenance (σ : State) (stmt : Statement) : Provenance :=
  match stmt.kind with
  | .userInput => { sources := [Source.parse stmt.source] }
  | .sanitizer => .none
  | _ =>
      ((σ.readSet stmt).filter fun name => σ.level name ≠ .untainted).foldl
        (fun merged name => merged.merge (σ.provenance name)) .none

/-- Attaches a sink to variables, whose levels stay. -/
def attachSink (σ : State) (sink : Sink) (names : List Text) : State :=
  names.foldl
    (fun σ name =>
      σ.write name (σ.level name) (some ((σ.provenance name).merge { sinks := [sink] })))
    σ

/-- Executes one statement of a run. -/
def step (σ : State) (stmt : Statement) : State :=
  let (advised, out) := σ.transfer stmt .untainted
  let sunk :=
    if stmt.sink.isEmpty then advised
    else advised.attachSink { name := stmt.sink, kind := stmt.kind.name, line := stmt.line }
      (σ.readSet stmt)
  if stmt.writes then sunk.write stmt.target out (some (σ.writtenProvenance stmt)) else sunk

/-- Executes statements in order. -/
def run (σ : State) (stmts : List Statement) : State := stmts.foldl step σ

/-- The log entries of a run, in order. -/
def notices : State → List Statement → List Log.Entry
  | _, [] => []
  | σ, stmt :: rest => (σ.notice? stmt).toList ++ notices (σ.step stmt) rest

end State

end Shortfall.Taint
