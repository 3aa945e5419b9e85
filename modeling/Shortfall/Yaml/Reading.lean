import Shortfall.Word
import Shortfall.Yaml.Node.OfTokens

/-!
# Reading values from nodes

A reader asks a node for a value of some type and is given the value that stood in its place
before. Where a node does not fit, the mismatch is noted, the old value stays, and reading goes
on, so that all mismatches of a document are reported together. An empty value leaves a text, a
number or a record as it was and clears a list.

A mapping that repeats a key is never read; the repetitions are all that is reported about it.

References are followed, each at most once at a time. A document that consists almost entirely of
repeated references is refused.
-/

namespace Shortfall.Yaml

structure ReadState where
  /-- How many nodes were visited, and how many of them behind a reference. -/
  visited : Nat := 0
  visitedBehind : Nat := 0
  /-- The references being followed. -/
  following : List Nat := []
  mismatches : List Mismatch := []

/-- Reading happens inside a document, whose anchored nodes it can look up. -/
abbrev Read := ReaderT (List (Nat × Node)) (StateT ReadState (Except Fault))

namespace Read

def fail {α : Type} (fault : Fault) : Read α := throw fault

def mismatch (m : Mismatch) : Read PUnit :=
  modify fun s => { s with mismatches := s.mismatches ++ [m] }

/-- Whether references make up too much of what was visited: up to 400000 visits 99 in 100 are
allowed, and from there the share falls to 10 in 100 at four million. -/
def isExcessive (visited behind : Nat) : Bool :=
  behind > 100 && visited > 1000
    && (if visited ≤ 400000 then behind * 100 > visited * 99
        else if visited ≥ 4000000 then behind * 10 > visited
        else behind * 100 * 3600000 > visited * (99 * 3600000 - 89 * (visited - 400000)))

/-- Counts a visit. -/
def count : Read PUnit := do
  let s ← get
  let behind := if s.following.isEmpty then s.visitedBehind else s.visitedBehind + 1
  if isExcessive (s.visited + 1) behind then fail .excessiveAliasing
  set { s with visited := s.visited + 1, visitedBehind := behind }

/-- Visits a node; a reference is followed to the node it means. -/
def visit {α : Type} (n : Node) (read : Node → Read α) : Read α := do
  count
  match n with
  | .reference _ name number anchor =>
      if (← get).following.contains number then fail (.selfContainingAnchor name)
      modify fun s => { s with following := number :: s.following }
      count
      let result ← read (((← readThe (List (Nat × Node))).lookup anchor).getD default)
      modify fun s => { s with following := s.following.erase number }
      return result
  | _ => read n

/-- The keys of a mapping that repeat an earlier key. -/
def duplicateKeys : List (Node × Node) → List Mismatch
  | [] => []
  | (first, _) :: rest =>
      (rest.filter fun (key, _) => first.sameKind key && first.text = key.text).map
        (fun (key, _) => .duplicateKey key.line key.text first.line)
        ++ duplicateKeys rest

/-- Notes the keys of a mapping that repeat an earlier key, and tells whether there are any. -/
def hasDuplicates (pairs : List (Node × Node)) : Read Bool := do
  let duplicates := duplicateKeys pairs
  for duplicate in duplicates do
    mismatch duplicate
  return !duplicates.isEmpty

/-- Notes that a node does not fit a type. -/
def wrongType (n : Node) (type : Text) : Read PUnit := do
  match n with
  | .mapping _ _ pairs => if ← hasDuplicates pairs then return
  | _ => pure ()
  mismatch (.wrongType n.line n.tag n.text type)

/-- The value of a scalar, with binary data decoded. -/
def scalarValue (tag text : Text) : Read ScalarValue := do
  match valueUnder tag text with
  | .error fault => fail fault
  | .ok (actual, value) =>
      if actual = Tag.binary then
        match Text.ofBase64? text with
        | some bytes => return .text bytes
        | none => fail .badBinary
      else return value

/-- A reader: given a node and the value before, the value after, and whether the node gave
one. -/
abbrev Reader (α : Type) := Node → α → Read (α × Bool)

/-- Reads a scalar that is not empty with `convert?`. -/
def scalar {α : Type} (type : Text) (convert? : (tag text : Text) → ScalarValue → Option α) :
    Reader α := fun n old =>
  visit n fun n => do
    match n with
    | .scalar _ tag text =>
        let value ← scalarValue tag text
        if value = .null then return (old, false)
        match convert? tag text value with
        | some new => return (new, true)
        | none =>
            wrongType n type
            return (old, false)
    | _ =>
        wrongType n type
        return (old, false)

/-- Any scalar is read as the text it was written with; binary data is decoded. -/
def textOf (type : Text) : Reader Text := scalar type fun tag text value =>
  match value with
  | .text decoded => some (if tag = Tag.binary then decoded else text)
  | _ => some text

def text : Reader Text := textOf "string"

/-- Integers, and floating-point numbers without their fraction. -/
def int : Reader Int := scalar "int" fun _ _ value =>
  match value with
  | .int n => if n < Word.signBound then some n else none
  | .float f => if f.atMostMaxInt64 then some f.toInt64 else none
  | _ => none

/-- Truth values, and the words that used to be truth values. -/
def bool : Reader Bool := scalar "bool" fun _ _ value =>
  match value with
  | .bool b => some b
  | .text t =>
      if (["y", "Y", "yes", "Yes", "YES", "on", "On", "ON"] : List Text).contains t then some true
      else if (["n", "N", "no", "No", "NO", "off", "Off", "OFF"] : List Text).contains t then
        some false
      else none
  | _ => none

/-- Reads the items of a sequence; those that give no value are left out. -/
def items {α : Type} (item : Reader α) (blank : α) : List Node → Read (List α)
  | [] => return []
  | n :: rest => do
      let (value, good) ← item n blank
      let values ← items item blank rest
      return if good then value :: values else values

/-- A list; nothing stands for a list that is not there. -/
def list {α : Type} (type : Text) (item : Reader α) (blank : α) : Reader (Option (List α)) :=
  fun n old => visit n fun n => do
    match n with
    | .sequence _ _ nodes => return (some (← items item blank nodes), true)
    | .scalar _ tag text =>
        if (← scalarValue tag text) = .null then return (none, true)
        wrongType n type
        return (old, false)
    | _ =>
        wrongType n type
        return (old, false)

def texts : Reader (Option (List Text)) := list "[]string" text []

end Read

/-- Reads the first document of a text. A text without a document leaves the value as it is. -/
def read {α : Type} (reader : (fuel : Nat) → Read.Reader α) (blank : α) (text : Text) :
    Except Fault α := do
  match ← Document.parse text with
  | none => return blank
  | some document =>
      let fuel := (text.length + 2) * (text.length + 2)
      let ((value, _), state) ←
        ((Read.count *> reader fuel document.root blank).run document.anchored).run {}
      if state.mismatches.isEmpty then return value
      throw (.mismatches state.mismatches)

end Shortfall.Yaml
