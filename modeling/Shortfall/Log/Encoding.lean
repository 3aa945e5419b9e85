import Shortfall.Json.Printer
import Shortfall.Log.Entry
import Shortfall.Text.Case
import Shortfall.Text.Quoted

/-!
# Writing a log

A log has a threshold and a format. For people an entry is a line of columns with its fields as an
object at the end; for programs it is a JSON object.
-/

namespace Shortfall.Log

inductive Format where
  | console
  | json
  deriving DecidableEq, Repr

structure Config where
  threshold : Severity := .info
  format : Format := .console
  deriving DecidableEq, Repr

/-- Why a log cannot be set up. -/
inductive Error where
  | badLevel (level : Text)
  | badFormat (format : Text)
  deriving DecidableEq, Repr

def Error.message : Error → Text
  | badLevel level => "invalid log level " ++ level.quoted
  | badFormat format => "invalid log format " ++ format.quoted ++ " (want console or json)"

/-- A threshold by its name, in any case. Without one, entries for information are shown. -/
def Severity.parse (level : Text) : Except Error Severity :=
  if level.isEmpty then .ok .info
  else
    match Severity.all.find? fun severity => severity.name = level.lower with
    | some severity => .ok severity
    | none => .error (.badLevel level)

/-- A format by its name, in any case. -/
def Format.parse (format : Text) : Except Error Format :=
  let name := format.lower
  if name.isEmpty || name = "console" then .ok .console
  else if name = "json" then .ok .json
  else .error (.badFormat format)

def Config.parse (level format : Text) : Except Error Config :=
  match Severity.parse level with
  | .error error => .error error
  | .ok threshold =>
      match Format.parse format with
      | .error error => .error error
      | .ok format => .ok { threshold, format }

/-- The entries that a log shows. -/
def Config.shown (config : Config) (entries : List Entry) : List Entry :=
  entries.filter fun entry => entry.severity.shownAt config.threshold

/-! ## Lines -/

/-- The name that all entries carry. -/
def loggerName : Text := "secgap"

def quote (text : Text) : Text := Json.quoteWith Json.plainEscape? text

/-- A value as JSON; `space` stands behind each comma. -/
def Value.encode (space : Text) : Value → Text
  | text t => quote t
  | texts ts => "[" ++ Text.joinWith ("," ++ space) (ts.map quote) ++ "]"
  | number n => Text.ofInt n
  | flag b => if b then "true" else "false"

/-- Fields as the members of an object. -/
def encodeFields (space : Text) (fields : List (Text × Value)) : Text :=
  Text.joinWith ("," ++ space)
    (fields.map fun (name, value) => quote name ++ ":" ++ space ++ value.encode space)

/-- An entry in columns, without the time. -/
def Entry.columns (entry : Entry) : Text :=
  let columns : List Text := [entry.severity.name.upper, loggerName, entry.message]
  let fields : List Text :=
    if entry.fields.isEmpty then []
    else ["\x7b" ++ encodeFields " " entry.fields ++ "\x7d"]
  Text.joinWith "\t" (columns ++ fields)

/-- An entry as a JSON object, made at the given time. -/
def Entry.object (time : Text) (entry : Entry) : Text :=
  let head : List (Text × Value) := [
    ("level", .text entry.severity.name),
    ("ts", .text time),
    ("logger", .text loggerName),
    ("msg", .text entry.message)]
  "\x7b" ++ encodeFields [] (head ++ entry.fields) ++ "\x7d"

/-- The line of an entry that was made at the given time. -/
def Format.line (format : Format) (time : Text) (entry : Entry) : Text :=
  match format with
  | .console => time ++ "\t" ++ entry.columns ++ "\n"
  | .json => entry.object time ++ "\n"

end Shortfall.Log
