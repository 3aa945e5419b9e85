import Shortfall.Files.Rotation
import Shortfall.Gap.Result
import Shortfall.Json.Decoding
import Shortfall.Json.Printer
import Shortfall.Redaction

/-!
# The audit log

Every run leaves one line in the audit log, a JSON object that says what was run, on what, and how
it ended. Free text is redacted before it is written. Reading the log back passes over lines that
are no events, and ends at a line that is too long.
-/

namespace Shortfall.Audit

open Json (Decoder)
open Json.Decoder (Field Cells)

/-- One run. -/
structure Event where
  runId : Text := []
  timestamp : Text := []
  command : Text := []
  inputs : List Text := []
  strategy : Text := []
  additional : List Text := []
  summary? : Option Gap.Summary := none
  violations : Int := 0
  durationMs : Int := 0
  /-- The error that ended the run, if any. -/
  error : Text := []
  deriving DecidableEq, Repr

/-! ## Writing -/

/-- The event as it may be written: free text without secrets. -/
def Event.redacted (event : Event) : Event :=
  { event with
    command := Redaction.redact event.command
    inputs := event.inputs.map Redaction.redact
    error := Redaction.redact event.error }

def summaryJson (summary : Gap.Summary) : Json := .object [
  ("totalGaps", .int summary.total),
  ("criticalGaps", .int summary.critical),
  ("highGaps", .int summary.high),
  ("mediumGaps", .int summary.medium),
  ("lowGaps", .int summary.low)]

/-- A member that is left out when a condition fails. -/
def memberIf (present : Bool) (name : Text) (value : Json) : List (Text × Json) :=
  if present then [(name, value)] else []

/-- The members that every event has. -/
def Event.identity (event : Event) : List (Text × Json) := [
  ("run_id", .string event.runId),
  ("timestamp", .string event.timestamp),
  ("command", .string event.command)]

def Event.duration (event : Event) : List (Text × Json) := [("duration_ms", .int event.durationMs)]

def Event.summary (event : Event) : List (Text × Json) :=
  match event.summary? with
  | some summary => [("summary", summaryJson summary)]
  | none => []

/-- An event as an object; what is empty is left out, apart from what every event has. -/
def Event.json (event : Event) : Json := .object (
  event.identity
    ++ memberIf (!event.inputs.isEmpty) "inputs" (.texts event.inputs)
    ++ memberIf (!event.strategy.isEmpty) "strategy" (.string event.strategy)
    ++ memberIf (!event.additional.isEmpty) "additional_strategies" (.texts event.additional)
    ++ event.summary
    ++ memberIf (event.violations ≠ 0) "violations" (.int event.violations)
    ++ event.duration
    ++ memberIf (!event.error.isEmpty) "error" (.string event.error))

/-- The line of an event. A run without an identity or a time is given the ones at hand. -/
def Event.line (runId timestamp : Text) (event : Event) : Text :=
  let complete :=
    { event with
      runId := if event.runId.isEmpty then runId else event.runId
      timestamp := if event.timestamp.isEmpty then timestamp else event.timestamp }
  complete.redacted.json.compact ++ "\n"

/-- The log at a path: its limit is given in megabytes, and is ten of them without a positive
number. -/
def logAt (path : Text) (maxSizeMb maxBackups : Int) : RotatingFile where
  path := path
  limit := RotatingFile.bytesOf (if maxSizeMb ≤ 0 then 10 else maxSizeMb)
  backups := maxBackups

/-! ## Reading -/

def summaryDecoder : Decoder Gap.Summary := .record [
  .of "totalGaps" .int (·.total) (fun s v => { s with total := v }),
  .of "criticalGaps" .int (·.critical) (fun s v => { s with critical := v }),
  .of "highGaps" .int (·.high) (fun s v => { s with high := v }),
  .of "mediumGaps" .int (·.medium) (fun s v => { s with medium := v }),
  .of "lowGaps" .int (·.low) (fun s v => { s with low := v })]

/-- An event while it is read. -/
structure Draft where
  event : Event := {}
  inputs : Option (Cells Text) := none
  additional : Option (Cells Text) := none

def Draft.finished (draft : Draft) : Event :=
  { draft.event with
    inputs := Decoder.itemsOf draft.inputs
    additional := Decoder.itemsOf draft.additional }

def eventDecoder : Decoder Draft := .plainRecord [
  .of "run_id" .text (·.event.runId) (fun d v => { d with event.runId := v }),
  .of "timestamp" .text (·.event.timestamp) (fun d v => { d with event.timestamp := v }),
  .of "command" .text (·.event.command) (fun d v => { d with event.command := v }),
  .of "inputs" .texts (·.inputs) (fun d v => { d with inputs := v }),
  .of "strategy" .text (·.event.strategy) (fun d v => { d with event.strategy := v }),
  .of "additional_strategies" .texts (·.additional) (fun d v => { d with additional := v }),
  .of "summary" (.optional {} summaryDecoder) (·.event.summary?)
    (fun d v => { d with event.summary? := v }),
  .of "violations" .int (·.event.violations) (fun d v => { d with event.violations := v }),
  .of "duration_ms" .int (·.event.durationMs) (fun d v => { d with event.durationMs := v }),
  .of "error" .text (·.event.error) (fun d v => { d with event.error := v })]

/-- The event on a line. -/
def Event.parse? (line : Text) : Option Event :=
  (eventDecoder.run? {} line).map Draft.finished

/-- The longest line that is read. -/
def maxLineLength : Nat := 65535

/-- A line without the carriage return at its end. -/
def dropReturn (line : Text) : Text :=
  if line.getLast? = some 0x0D then line.dropLast else line

/-- Why a log cannot be read. -/
inductive ReadError where
  | unreadable (error : Files.Error)
  | lineTooLong
  deriving DecidableEq, Repr

def ReadError.message : ReadError → Text
  | unreadable error => error.message
  | lineTooLong => "bufio.Scanner: token too long"

/-- What was read of a log: the events up to its end, or up to the error that ended the reading. -/
structure Reading where
  events : List Event := []
  error? : Option ReadError := none
  deriving DecidableEq, Repr

/-- The events on some lines. Lines that are no events are passed over. -/
def eventsOfLines : List Text → Reading
  | [] => {}
  | line :: rest =>
      if line.length > maxLineLength then { error? := some .lineTooLong }
      else
        let later := eventsOfLines rest
        { later with events := (Event.parse? (dropReturn line)).toList ++ later.events }

/-- The events of a log. -/
def parse (content : Text) : Reading := eventsOfLines (content.splitAtByte 0x0A)

/-- The events of the log at a path. A missing log has none. -/
def load {m : Type → Type} [Monad m] [Files m] (path : Text) : m Reading := do
  match ← Files.read path with
  | .error error => return if error.isNotFound then {} else { error? := some (.unreadable error) }
  | .ok content => return parse content

end Shortfall.Audit
