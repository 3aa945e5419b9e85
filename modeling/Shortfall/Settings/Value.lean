import Shortfall.Binary64
import Shortfall.Calendar
import Shortfall.Text.Case
import Shortfall.Word

/-!
# Values of settings

Settings come from files, from the environment and from the command line, and most of these do not
know the type a setting should have. A value keeps the type it was written with until a setting is
asked for.
-/

namespace Shortfall.Settings

/-- The name of the type of a point in time. -/
def scopeType : Calendar.Scope → Text
  | .instant => "time.Time"
  | .date => "toml.LocalDate"
  | .time => "toml.LocalTime"
  | .dateTime => "toml.LocalDateTime"

inductive Value where
  | nothing
  | text (text : Text)
  | flag (b : Bool)
  /-- A signed or unsigned integer of 64 bits. -/
  | int (n : Int)
  /-- An integer of a format that knows no unsigned ones. -/
  | signed (n : Int)
  | float (f : Binary64)
  | moment (scope : Calendar.Scope)
  | list (items : List Value)
  | table (entries : List (Text × Value))
  deriving Repr, Inhabited

abbrev Table := List (Text × Value)

namespace Value

/-- The name of the type of a value, as messages give it. -/
def typeName : Value → Text
  | nothing => "nil"
  | text _ => "string"
  | flag _ => "bool"
  | int n => if n < Word.signBound then "int" else "uint64"
  | signed _ => "int64"
  | float _ => "float64"
  | moment scope => scopeType scope
  | list _ => "[]interface \x7b\x7d"
  | table _ => "map[string]interface \x7b\x7d"

/-- The kind of a value, as messages give it. -/
def kindName : Value → Text
  | moment _ => "struct"
  | list _ => "slice"
  | table _ => "map"
  | value => value.typeName

def isNothing : Value → Bool
  | nothing => true
  | _ => false

/-- Sets an entry of a table, in its old place where it has one. -/
def setEntry (name : Text) (value : Value) : Table → Table
  | [] => [(name, value)]
  | (key, old) :: rest =>
      if key = name then (key, value) :: rest else (key, old) :: setEntry name value rest

def entry? (name : Text) (entries : Table) : Option Value :=
  (entries.find? fun (key, _) => key = name).map (·.2)

/-- A table with all names in lower case. Of entries whose names become the same, one whose name
changes goes before one whose name does not. -/
def lowerKeys (entries : Table) : Table :=
  let (lower, others) := entries.partition fun (name, _) => name.lower = name
  others.foldl (fun table (name, value) => setEntry name.lower value table) lower

mutual

/-- The value with all names of entries in lower case. -/
def lowerNames : Value → Value
  | list items => list (lowerItems items)
  | table entries => table (lowerKeys (lowerContents entries))
  | value => value

def lowerItems : List Value → List Value
  | [] => []
  | item :: rest => item.lowerNames :: lowerItems rest

/-- The entries of a table under their own names, with all names below them in lower case. -/
def lowerContents : List (Text × Value) → List (Text × Value)
  | [] => []
  | (name, value) :: rest => (name, value.lowerNames) :: lowerContents rest

end

end Value

end Shortfall.Settings
