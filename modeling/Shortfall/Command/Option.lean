import Shortfall.Text.Csv
import Shortfall.Text.Numeral
import Shortfall.Text.Quoted

/-!
# Options of commands

An option has a name and a kind, which tells what its value is. Lists grow with every use of their
option; of other options the last use counts.
-/

namespace Shortfall.Command

inductive OptionKind where
  | text
  /-- A list, given as comma-separated values. -/
  | texts
  | number
  /-- A switch, which needs no value. -/
  | switch
  deriving DecidableEq, Repr

structure OptionSpec where
  name : Text
  kind : OptionKind
  deriving DecidableEq, Repr

inductive OptionValue where
  | text (text : Text)
  | texts (texts : List Text)
  | number (n : Int)
  | switch (on : Bool)
  deriving DecidableEq, Repr

/-- Why a text is no value of an option. -/
inductive ValueError where
  | badSwitch (text : Text)
  | badNumber (text : Text) (error : Text.NumeralError)
  | badList (error : Text.Csv.Error)
  deriving DecidableEq, Repr

def ValueError.message : ValueError → Text
  | badSwitch text => "strconv.ParseBool: parsing " ++ text.quoted ++ ": invalid syntax"
  | badNumber text error => "strconv.ParseInt: parsing " ++ text.quoted ++ ": " ++ error.message
  | badList error => error.message

/-- The words for on and off. -/
def switchWords : List (Text × Bool) := [
  ("1", true), ("t", true), ("T", true), ("true", true), ("TRUE", true), ("True", true),
  ("0", false), ("f", false), ("F", false), ("false", false), ("FALSE", false), ("False", false)]

def OptionKind.value (kind : OptionKind) (text : Text) : Except ValueError OptionValue :=
  match kind with
  | .text => .ok (.text text)
  | .texts =>
      if text.isEmpty then .ok (.texts [])
      else
        match Text.Csv.record text with
        | .ok items => .ok (.texts items)
        | .error error => .error (.badList error)
  | .number =>
      match Text.parseInt text with
      | .ok n => .ok (.number n)
      | .error error => .error (.badNumber text error)
  | .switch =>
      match switchWords.lookup text with
      | some on => .ok (.switch on)
      | none => .error (.badSwitch text)

/-! ## Given options -/

/-- The options that were given, in the order of their use. -/
abbrev Options := List (Text × OptionValue)

namespace Options

def isGiven (options : Options) (name : Text) : Bool := options.any fun (key, _) => key = name

/-- The value of the last use of an option. -/
def last? (options : Options) (name : Text) : Option OptionValue := options.reverse.lookup name

def text (options : Options) (name : Text) : Text :=
  match options.last? name with
  | some (.text text) => text
  | _ => []

def switch (options : Options) (name : Text) : Bool :=
  match options.last? name with
  | some (.switch on) => on
  | _ => false

def number (options : Options) (name : Text) : Int :=
  match options.last? name with
  | some (.number n) => n
  | _ => 0

/-- The items of all uses of an option. -/
def texts (options : Options) (name : Text) : List Text :=
  options.flatMap fun (key, value) =>
    match value with
    | .texts items => if key = name then items else []
    | _ => []

end Options

end Shortfall.Command
