import Shortfall.Toml.Number
import Shortfall.Toml.Outline

/-!
# TOML documents

A document is a table of values. Its lines are taken one after another: each is read, then checked
against what is defined already, and then carried out. A table that is opened at the end of an
array of tables, or below one, belongs to the last element of the array.
-/

namespace Shortfall.Toml

inductive Value where
  | text (text : Text)
  | bool (b : Bool)
  | int (n : Int)
  | float (f : Binary64)
  | moment (scope : Calendar.Scope)
  | array (items : List Value)
  | table (entries : List (Text × Value))
  deriving Repr, Inhabited

abbrev Table := List (Text × Value)

namespace Table

def get? (name : Text) (table : Table) : Option Value :=
  (table.find? fun (key, _) => key = name).map (·.2)

/-- Sets an entry, in its old place where it has one. -/
def set (name : Text) (value : Value) : Table → Table
  | [] => [(name, value)]
  | (key, old) :: rest =>
      if key = name then (key, value) :: rest else (key, old) :: set name value rest

/-- Changes the table at a path. Missing tables are made, and an array stands for its last
element. -/
def updateAt (change : Table → Table) : Key → Table → Table
  | [], table => change table
  | name :: path, table =>
      match get? name table with
      | none => set name (.table (updateAt change path [])) table
      | some (.table inner) => set name (.table (updateAt change path inner)) table
      | some (.array items) =>
          match items.getLast? with
          | some (.table inner) =>
              set name (.array (items.dropLast ++ [.table (updateAt change path inner)])) table
          | _ => table
      | some _ => table

/-- Assigns a value to a key. -/
def assign (key : Key) (value : Value) (table : Table) : Table :=
  match key.getLast? with
  | none => table
  | some name => updateAt (set name value) key.dropLast table

/-- Adds an empty element to an array of tables. -/
def addElement (key : Key) (table : Table) : Table :=
  match key.getLast? with
  | none => table
  | some name =>
      updateAt
        (fun inner =>
          match get? name inner with
          | some (.array items) => set name (.array (items ++ [.table []])) inner
          | _ => set name (.array [.table []]) inner)
        key.dropLast table

end Table

mutual

/-- What a written value denotes. -/
def denote : (fuel : Nat) → Raw → Except Fault Value
  | 0, _ => .ok (.array [])
  | _ + 1, .text text => .ok (.text text)
  | _ + 1, .bool b => .ok (.bool b)
  | _ + 1, .integer numeral => do return .int (← integer numeral)
  | _ + 1, .float numeral => do return .float (← float numeral)
  | _ + 1, .moment scope text => do
      checkMoment scope text
      return .moment scope
  | fuel + 1, .array items => do return .array (← denoteAll fuel items)
  | fuel + 1, .table entries => do return .table (← denoteEntries fuel entries [])

def denoteAll : (fuel : Nat) → List Raw → Except Fault (List Value)
  | 0, _ => .ok []
  | _ + 1, [] => .ok []
  | fuel + 1, item :: rest => do
      let value ← denote fuel item
      return value :: (← denoteAll fuel rest)

def denoteEntries : (fuel : Nat) → List (Key × Raw) → Table → Except Fault Table
  | 0, _, table => .ok table
  | _ + 1, [], table => .ok table
  | fuel + 1, (key, raw) :: rest, table => do
      let value ← denote fuel raw
      denoteEntries fuel rest (table.assign key value)

end

/-- What is known between two lines. -/
structure Draft where
  table : Table := []
  outline : Outline := .empty
  /-- The table that is open. -/
  current : Key := []

/-- Carries a line out. `fuel` bounds the depth and the size of its value. -/
def Draft.add (fuel : Nat) (draft : Draft) : Expression → Except Fault Draft
  | .assignment key raw => do
      let outline ← draft.outline.updateAt (Outline.assignKey key) draft.current
      Outline.checkValue fuel raw
      let value ← denote fuel raw
      return { draft with
        outline, table := draft.table.updateAt (Table.assign key value) draft.current }
  | .table key => do
      let closed ← draft.outline.updateAt (fun outline => .ok outline.close) draft.current
      let outline ← closed.openKey Outline.openTable key
      return { outline, table := draft.table.updateAt id key, current := key }
  | .arrayTable key => do
      let closed ← draft.outline.updateAt (fun outline => .ok outline.close) draft.current
      let outline ← closed.openKey Outline.openArrayTable key
      return { outline, table := draft.table.addElement key, current := key }

/-- Carries out the lines of a text, each of which but the first follows a line end. -/
def addLines : (fuel : Nat) → (first : Bool) → Text → Draft → Except Fault Draft
  | 0, _, _, draft => .ok draft
  | fuel + 1, first, text, draft => do
      if text.isEmpty then return draft
      let text ← if first then pure text else skipLineEnd text
      if text.isEmpty then return draft
      let (expression?, rest) ← line text
      let draft ← match expression? with
        | some expression => draft.add (2 * text.length + 2) expression
        | none => pure draft
      addLines fuel false rest draft

/-- The table in a document. -/
def parse (text : Text) : Except Fault Table := do
  return (← addLines (text.length + 2) true text {}).table

end Shortfall.Toml
