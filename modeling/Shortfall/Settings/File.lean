import Shortfall.Binary64.Numeral
import Shortfall.Dotenv
import Shortfall.Json.Parser
import Shortfall.Settings.Value
import Shortfall.Toml
import Shortfall.Yaml.Datum

/-!
# Configuration files

A configuration file holds a table of settings, in YAML, JSON or TOML, or as a list of variables.
Names of settings are read in lower case.
-/

namespace Shortfall.Settings

/-! ## YAML -/

namespace FromYaml

open Yaml (ScalarValue Datum)

def ofScalar : ScalarValue → Value
  | .null => .nothing
  | .bool b => .flag b
  | .int n => .int n
  | .float f => .float f
  | .timestamp _ => .moment .instant
  | .text t => .text t

/-- The name under which an entry is kept. -/
def keyText : ScalarValue → Text
  | .null => []
  | .bool b => if b then "true" else "false"
  | .int n => Text.ofInt n
  | .float f => f.text
  | .timestamp moment => moment.text
  | .text t => t

mutual

def value : Datum → Value
  | .scalar scalar => ofScalar scalar
  | .list items => .list (values items)
  | .table _ entries => .table (table entries)

def values : List Datum → List Value
  | [] => []
  | item :: rest => value item :: values rest

def table : List (ScalarValue × Datum) → Table
  | [] => []
  | (key, content) :: rest => (keyText key, value content) :: table rest

end

end FromYaml

/-! ## JSON -/

namespace FromJson

/-- A number as the nearest floating-point number, or nothing when it is too large. -/
def float? (literal : Text) : Option Binary64 := (Binary64.parse literal).toOption

mutual

def value : Json → Value
  | .null => .nothing
  | .bool b => .flag b
  | .number literal => .float ((float? literal).getD .nan)
  | .string t => .text t
  | .array items => .list (values items)
  | .object members => .table (entries members)

def values : List Json → List Value
  | [] => []
  | item :: rest => value item :: values rest

/-- The last of several members of one name counts. -/
def entries : List (Text × Json) → Table
  | [] => []
  | (name, member) :: rest =>
      let others := entries rest
      if others.any fun (key, _) => key = name then others else (name, value member) :: others

end

mutual

/-- The first number that is too large. -/
def tooLarge? : Json → Option Text
  | .number literal => if (float? literal).isNone then some literal else none
  | .array items => tooLargeItem? items
  | .object members => tooLargeMember? members
  | _ => none

def tooLargeItem? : List Json → Option Text
  | [] => none
  | item :: rest => (tooLarge? item).or (tooLargeItem? rest)

def tooLargeMember? : List (Text × Json) → Option Text
  | [] => none
  | (_, member) :: rest => (tooLarge? member).or (tooLargeMember? rest)

end

/-- The type of a JSON value, as messages give it. -/
def typeName : Json → Text
  | .null => "null"
  | .bool _ => "bool"
  | .number _ => "number"
  | .string _ => "string"
  | .array _ => "array"
  | .object _ => "object"

end FromJson

/-! ## TOML -/

namespace FromToml

mutual

def value : Toml.Value → Value
  | .text t => .text t
  | .bool b => .flag b
  | .int n => .signed n
  | .float f => .float f
  | .moment scope => .moment scope
  | .array items => .list (values items)
  | .table members => .table (entries members)

def values : List Toml.Value → List Value
  | [] => []
  | item :: rest => value item :: values rest

def entries : List (Text × Toml.Value) → Table
  | [] => []
  | (name, member) :: rest => (name, value member) :: entries rest

end

end FromToml

/-! ## Formats -/

/-- The formats that files are read in. -/
inductive Format where
  | yaml
  | json
  | toml
  | dotenv
  deriving DecidableEq, Repr

/-- The format that the ending of a file name stands for. -/
def Format.ofEnding? (ending : Text) : Option Format :=
  if ending = "yaml" || ending = "yml" then some yaml
  else if ending = "json" then some json
  else if ending = "toml" then some toml
  else if ending = "env" || ending = "dotenv" then some dotenv
  else none

/-- Why a file holds no settings. -/
inductive FormatError where
  | yaml (fault : Yaml.Fault)
  | notJson
  /-- A JSON value of a type that cannot be read as another one. -/
  | jsonType (given expected : Text)
  | toml (fault : Toml.Fault)
  | dotenv (fault : Dotenv.Fault)
  /-- A format that is known and not read. -/
  | noReader
  deriving DecidableEq, Repr

def FormatError.message : FormatError → Text
  | yaml fault => fault.message
  | notJson => "invalid JSON"
  | jsonType given expected =>
      "json: cannot unmarshal " ++ given ++ " into Go value of type " ++ expected
  | toml fault => fault.message
  | dotenv fault => fault.message
  | noReader => "decoder not found for this format"

/-- The table in a JSON text. -/
def jsonTable (text : Text) : Except FormatError Table :=
  match Json.parse? text with
  | none => .error .notJson
  | some (.object members) =>
      match FromJson.tooLargeMember? members with
      | some literal => .error (.jsonType ("number " ++ literal) "float64")
      | none => .ok (FromJson.entries members)
  | some .null => .ok []
  | some other => .error (.jsonType (FromJson.typeName other) (Yaml.Datum.tableType false))

/-- The table in a text, with names as they are written. -/
def Format.table {m : Type → Type} [Monad m] (environment : Text → m (Option Text))
    (format : Format) (text : Text) : m (Except FormatError Table) := do
  match format with
  | .json => return jsonTable text
  | .yaml =>
      match Yaml.read Yaml.Datum.tableReader [] text with
      | .error fault => return .error (.yaml fault)
      | .ok entries => return .ok (FromYaml.table entries)
  | .toml =>
      match Toml.parse text with
      | .error fault => return .error (.toml fault)
      | .ok entries => return .ok (FromToml.entries entries)
  | .dotenv =>
      match ← Dotenv.parse environment text with
      | .error fault => return .error (.dotenv fault)
      | .ok known => return .ok (known.map fun (name, value) => (name, .text value))

/-- The table in a text, with names in lower case. -/
def Format.parse {m : Type → Type} [Monad m] (environment : Text → m (Option Text))
    (format : Format) (text : Text) : m (Except FormatError Table) := do
  match ← format.table environment text with
  | .error error => return .error error
  | .ok table => return .ok (Value.lowerKeys (Value.lowerContents table))

end Shortfall.Settings
