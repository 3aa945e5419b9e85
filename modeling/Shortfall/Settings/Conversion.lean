import Shortfall.Settings.Value
import Shortfall.Text.Numeral
import Shortfall.Text.Quoted
import Shortfall.Word

/-!
# Asking a value for a type

A setting has a type, and a value is converted to it where that makes sense: numbers and truth
values are written out as texts, texts are read as numbers and truth values, and a single value
becomes a list of one. All conversions that fail are reported together.
-/

namespace Shortfall.Settings

/-- Why a value is not what a setting needs. -/
inductive Issue where
  | wrongType (name expected given : Text)
  | unreadable (name expected reason : Text)
  /-- A group of settings that is no table. -/
  | noTable (name kind : Text)
  deriving DecidableEq, Repr

def Issue.message : Issue → Text
  | wrongType name expected given =>
      "'" ++ name ++ "' expected type '" ++ expected ++ "', got unconvertible type '" ++ given
        ++ "'"
  | unreadable name expected reason =>
      "'" ++ name ++ "' cannot parse value as '" ++ expected ++ "': " ++ reason
  | noTable name kind => "'" ++ name ++ "' expected a map or struct, got " ++ kind.quoted

/-- A value together with what went wrong on the way to it. -/
structure Checked (α : Type) where
  value : α
  issues : List Issue := []

/-- Converts the value of a named setting. -/
abbrev Conversion (α : Type) := (name : Text) → Value → Checked α

namespace Conversion

def wrongType {α : Type} (blank : α) (expected name : Text) (value : Value) : Checked α :=
  { value := blank, issues := [.wrongType name expected value.typeName] }

def text : Conversion Text := fun name value =>
  match value with
  | .nothing => { value := [] }
  | .text t => { value := t }
  | .flag b => { value := if b then "1" else "0" }
  | .int n | .signed n => { value := Text.ofInt n }
  | .float f => { value := f.text }
  | _ => wrongType [] "string" name value

/-- An unsigned integer as the signed one with the same bits. -/
def wrap (n : Int) : Int := if n < Word.signBound then n else n - Word.count

def int : Conversion Int := fun name value =>
  match value with
  | .nothing => { value := 0 }
  | .int n | .signed n => { value := wrap n }
  | .float f => { value := f.toInt64 }
  | .flag b => { value := if b then 1 else 0 }
  | .text t =>
      match Text.parseInt (if t.isEmpty then "0" else t) with
      | .ok n => { value := n }
      | .error error =>
          { value := 0
            issues := [.unreadable name "int" ("strconv.ParseInt: " ++ error.message)] }
  | _ => wrongType 0 "int" name value

def trueWords : List Text := ["1", "t", "T", "true", "TRUE", "True"]

def falseWords : List Text := ["", "0", "f", "F", "false", "FALSE", "False"]

/-- Whether a number is zero. -/
def isZero : Binary64 → Bool
  | .finite _ mantissa _ => mantissa = 0
  | _ => false

def flag : Conversion Bool := fun name value =>
  match value with
  | .nothing => { value := false }
  | .flag b => { value := b }
  | .int n | .signed n => { value := n ≠ 0 }
  | .float f => { value := !isZero f }
  | .text t =>
      if trueWords.contains t then { value := true }
      else if falseWords.contains t then { value := false }
      else
        { value := false
          issues := [.unreadable name "bool" "strconv.ParseBool: invalid syntax"] }
  | _ => wrongType false "bool" name value

/-- Converts the items of a list, which are numbered in messages. -/
def items (name : Text) (values : List Value) : Checked (List Text) :=
  let converted := values.zipIdx.map fun (value, index) =>
    text (name ++ "[" ++ Text.ofNat index ++ "]") value
  { value := converted.map (·.value), issues := converted.flatMap (·.issues) }

/-- A list of texts; a single text is split at its commas. -/
def texts : Conversion (List Text) := fun name value =>
  match value with
  | .nothing => { value := [] }
  | .text t => { value := if t.isEmpty then [] else t.splitAtByte 0x2C }
  | .list values => items name values
  | .table [] => { value := [] }
  | _ => items name [value]

end Conversion

end Shortfall.Settings
