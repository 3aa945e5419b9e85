import Shortfall.Toml.Expression

/-!
# What a document has defined

A key may be assigned once, and a table may be opened once. Tables that a longer key implies may
still be opened later, unless the key was assigned to: then they belong to the table that was
open, and are closed with it. Opening an array of tables again starts an element in which nothing
is defined yet.
-/

namespace Shortfall.Toml

/-- What is known about a key, and about the keys below it. -/
inductive Outline where
  | node (kind : Kind) (explicit assigned : Bool) (children : List (Text × Outline))
  deriving Repr

namespace Outline

def kind : Outline → Kind
  | node kind _ _ _ => kind

/-- Whether the table was opened, or closed with the one around it. -/
def isExplicit : Outline → Bool
  | node _ explicit _ _ => explicit

def children : Outline → List (Text × Outline)
  | node _ _ _ children => children

def child? (name : Text) (outline : Outline) : Option Outline :=
  (outline.children.find? fun (key, _) => key = name).map (·.2)

/-- Sets what is known about a key. -/
def setChild (name : Text) (child : Outline) : Outline → Outline
  | node kind explicit assigned children =>
      node kind explicit assigned (set children)
where
  set : List (Text × Outline) → List (Text × Outline)
    | [] => [(name, child)]
    | (key, old) :: rest =>
        if key = name then (key, child) :: rest else (key, old) :: set rest

/-- The outline of an empty document. -/
def empty : Outline := node .table false false []

/-- Changes the outline of the table at a path. -/
def updateAt (change : Outline → Except Fault Outline) : Key → Outline → Except Fault Outline
  | [], outline => change outline
  | name :: path, outline => do
      match outline.child? name with
      | none => return outline
      | some child => return outline.setChild name (← child.updateAt change path)

mutual

/-- Closes the tables below one that assignments have made. -/
def close : Outline → Outline
  | node kind explicit assigned children => node kind explicit assigned (closeAll children)

def closeAll : List (Text × Outline) → List (Text × Outline)
  | [] => []
  | (name, .node kind explicit assigned children) :: rest =>
      (name, .node kind (explicit || assigned) false (closeAll children)) :: closeAll rest

end

/-- Notes the last name of an opened table. -/
def openTable (name : Text) (outline : Outline) : Except Fault Outline :=
  match outline.child? name with
  | none => .ok (outline.setChild name (node .table true false []))
  | some child =>
      if child.kind ≠ .table then .error (.notTable name child.kind)
      else if child.isExplicit then .error (.tableAgain name)
      else
        match child with
        | node kind _ assigned children =>
            .ok (outline.setChild name (node kind true assigned children))

/-- Notes the last name of an array of tables that gets another element. -/
def openArrayTable (name : Text) (outline : Outline) : Except Fault Outline :=
  match outline.child? name with
  | none => .ok (outline.setChild name (node .arrayTable true false []))
  | some child =>
      if child.kind ≠ .arrayTable then .error (.notArrayTable name child.kind)
      else
        match child with
        | node kind explicit assigned _ =>
            .ok (outline.setChild name (node kind explicit assigned []))

/-- Notes the names of an opened key; the tables in front of the last name are implied. -/
def openKey (last : Text → Outline → Except Fault Outline) : Key → Outline → Except Fault Outline
  | [], outline => .ok outline
  | [name], outline => last name outline
  | name :: path, outline => do
      let child := (outline.child? name).getD (node .table false false [])
      if child.kind = .value then throw (.noTable name .value)
      return outline.setChild name (← child.openKey last path)

/-- Notes the names of an assigned key. -/
def assignKey : Key → Outline → Except Fault Outline
  | [], outline => .ok outline
  | [name], outline =>
      match outline.child? name with
      | none => .ok (outline.setChild name (node .value false true []))
      | some _ => .error (.keyAgain name)
  | name :: path, outline => do
      match outline.child? name with
      | none => return outline.setChild name (← (node .table false true []).assignKey path)
      | some child =>
          if child.kind ≠ .table then throw (.noTable name child.kind)
          if child.isExplicit then throw (.tableClosed name)
          return outline.setChild name (← child.assignKey path)

mutual

/-- Checks the tables inside a value, each of which is a document of its own. -/
def checkValue : (fuel : Nat) → Raw → Except Fault Unit
  | 0, _ => .ok ()
  | fuel + 1, .table entries => checkEntries fuel empty entries
  | fuel + 1, .array items => checkItems fuel items
  | _ + 1, _ => .ok ()

def checkItems : (fuel : Nat) → List Raw → Except Fault Unit
  | 0, _ => .ok ()
  | _ + 1, [] => .ok ()
  | fuel + 1, item :: rest => do
      checkValue fuel item
      checkItems fuel rest

def checkEntries : (fuel : Nat) → Outline → List (Key × Raw) → Except Fault Unit
  | 0, _, _ => .ok ()
  | _ + 1, _, [] => .ok ()
  | fuel + 1, outline, (key, value) :: rest => do
      let outline ← outline.assignKey key
      checkValue fuel value
      checkEntries fuel outline rest

end

end Outline

end Shortfall.Toml
