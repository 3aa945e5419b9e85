import Shortfall.Json.Quantity
import Shortfall.Text.Case
import Shortfall.Text.Utf8

/-!
# Rules for documents

A rule says which values may stand at a place of a document. Checking a value against a rule gives
all problems there are, each with the place it was found at. A value of the wrong type is one
problem, and nothing is said about what is inside.
-/

namespace Shortfall.Json

/-- What is wrong, and where. -/
structure Problem where
  field : Text
  description : Text
  deriving DecidableEq, Repr

inductive Rule where
  /-- Any text. -/
  | text
  /-- A text that is not empty. -/
  | nonemptyText
  /-- One of the given words, in any case. -/
  | word (words : List Text)
  /-- A whole number that is not negative. -/
  | count
  /-- A list, or also nothing where that is allowed. -/
  | list (nullable : Bool) (item : Rule)
  /-- An object with the members it must have and the rules of those it may have. -/
  | record (required : List Text) (members : List (Text × Rule))

namespace Rule

/-- The types that a rule allows, as problems name them. -/
def expected : Rule → Text
  | text | nonemptyText | word _ => "string"
  | count => "integer"
  | list nullable _ => if nullable then "[array,null]" else "array"
  | record _ _ => "object"

/-- The type of a value, as problems name it. -/
def given : Json → Text
  | .null => "null"
  | .bool _ => "boolean"
  | .number literal => if isWholeLiteral literal then "integer" else "number"
  | .string _ => "string"
  | .array _ => "array"
  | .object _ => "object"

/-- The name of a place. -/
def place (path : List Text) : Text :=
  if path.isEmpty then "(root)" else Text.joinWith "." path

def problem (path : List Text) (description : Text) : Problem := ⟨place path, description⟩

def wrongType (path : List Text) (rule : Rule) (value : Json) : Problem :=
  problem path ("Invalid type. Expected: " ++ rule.expected ++ ", given: " ++ given value)

/-- The pattern that stands for a choice of words. -/
def pattern (words : List Text) : Text := "^(?i)(" ++ Text.joinWith "|" words ++ ")$"

/-- The required members that an object does not have. -/
def missing (path required : List Text) (members : List (Text × Json)) : List Problem :=
  (required.filter fun name => !members.any fun (key, _) => key = name).map fun name =>
    problem path (name ++ " is required")

mutual

/-- All problems of a value at a place. -/
def check (path : List Text) : Rule → Json → List Problem
  | text, .string _ => []
  | nonemptyText, .string s =>
      if s.isEmpty then [problem path "String length must be greater than or equal to 1"] else []
  | word words, .string s =>
      if words.any fun w => w = Text.lowerAscii s then []
      else [problem path ("Does not match pattern '" ++ pattern words ++ "'")]
  | count, .number literal =>
      if !isWholeLiteral literal then [wrongType path count (.number literal)]
      else if isBelowZeroLiteral literal then
        [problem path "Must be greater than or equal to 0"]
      else []
  | list _ item, .array values =>
      values.zipIdx.flatMap fun (value, index) => item.check (path ++ [Text.ofNat index]) value
  | list true _, .null => []
  | record required rules, .object members =>
      missing path required members ++ checkMembers path rules (.object members)
  | rule, value => [wrongType path rule value]

/-- The problems of the members that an object has and that there is a rule for. -/
def checkMembers (path : List Text) : List (Text × Rule) → Json → List Problem
  | [], _ => []
  | (name, rule) :: rest, value =>
      (match value.member? name with
        | some inner => rule.check (path ++ [name]) inner
        | none => []) ++ checkMembers path rest value

end

/-- Problems in the order of their places. -/
def Problem.le (a b : Problem) : Bool :=
  a.field < b.field || (a.field = b.field && a.description ≤ b.description)

/-- The problems of a document, in order. -/
def problems (rule : Rule) (value : Json) : List Problem :=
  (rule.check [] value).mergeSort Problem.le

end Rule

end Shortfall.Json
