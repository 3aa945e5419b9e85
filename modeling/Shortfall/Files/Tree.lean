import Shortfall.Files
import Shortfall.NameMap
import Shortfall.Path

/-!
# A tree of files

Files held as a value: a folder is a list of named entries, in ascending order. The operations
fail for the same reasons as on a disk, which are found on the way along a path: a component that
is missing, or one that is a file where a folder is needed. All paths start at the root of the
tree.
-/

namespace Shortfall

inductive FileTree where
  | file (content : Text)
  | folder (entries : List (Text × FileTree))
  deriving Repr

namespace FileTree

open Files

/-! ## Places in a tree -/

/-- A place in a tree: the names on the way to it. -/
abbrev Place := List Text

/-- What is at a place. -/
def find (tree : FileTree) : Place → Except Cause FileTree
  | [] => .ok tree
  | name :: rest =>
      match tree with
      | file _ => .error .notDirectory
      | folder entries =>
          match lookupEntry name entries with
          | none => .error .notFound
          | some child => child.find rest

/-- Sets what is at a place, or removes it. The folder of the place must be there, and the root
stays. -/
def put (content? : Option FileTree) (tree : FileTree) : Place → Except Cause FileTree
  | [] => .error .isDirectory
  | name :: rest =>
      match tree with
      | file _ => .error .notDirectory
      | folder entries =>
          match rest with
          | [] =>
              match content? with
              | none => .ok (folder (entries.filter fun (key, _) => key ≠ name))
              | some content => .ok (folder (insertEntry name content entries))
          | _ :: _ =>
              match lookupEntry name entries with
              | none => .error .notFound
              | some child =>
                  match put content? child rest with
                  | .error cause => .error cause
                  | .ok changed => .ok (folder (insertEntry name changed entries))

/-- A name that is too long to be in a folder. -/
def isTooLong (name : Text) : Bool := name.length > 255

/-- The length from which on a path is not followed. -/
def pathLimit : Nat := 4096

def tooLong : Cause := .other "file name too long"

/-- Follows the components of a path from a place, given in reverse. What has a component behind
it must be a folder; the last component need not be there. -/
def locateFrom (tree : FileTree) (reversed : Place) : List Text → Except Cause Place
  | [] => .ok reversed.reverse
  | component :: rest =>
      match tree.find reversed.reverse with
      | .error cause => .error cause
      | .ok (file _) => .error .notDirectory
      | .ok (folder _) =>
          if component.isEmpty || component = "." then tree.locateFrom reversed rest
          else if component = ".." then tree.locateFrom reversed.tail rest
          else if isTooLong component then .error tooLong
          else tree.locateFrom (component :: reversed) rest

/-- The place that a path leads to. -/
def locate (tree : FileTree) (path : Text) : Except Cause Place :=
  if path.contains 0 then .error (.other "invalid argument")
  else if path.isEmpty then .error .notFound
  else if path.length ≥ pathLimit then .error tooLong
  else tree.locateFrom [] (path.splitAtByte Path.slash)

/-- What a path leads to. -/
def follow (tree : FileTree) (path : Text) : Except Cause FileTree :=
  match tree.locate path with
  | .error cause => .error cause
  | .ok place => tree.find place

/-! ## Operations -/

/-- The outcome of an operation on paths, with the causes named. -/
def naming {α : Type} (operation : Text) (paths : List Text) :
    Except Cause α → Except Error α
  | .ok a => .ok a
  | .error cause => .error { operation, paths, cause }

def read (tree : FileTree) (path : Text) : Except Error Text :=
  match tree.follow path with
  | .error cause => .error { operation := "open", paths := [path], cause }
  | .ok (folder _) => .error { operation := "read", paths := [path], cause := .isDirectory }
  | .ok (file content) => .ok content

def isFolder : FileTree → Bool
  | folder _ => true
  | file _ => false

def info : FileTree → Info
  | folder _ => .directory
  | file content => .file content.length

/-- The entries of a folder. -/
def list (tree : FileTree) (path : Text) : Except Error (List Entry) :=
  naming "open" [path] <|
    match tree.follow path with
    | .error cause => .error cause
    | .ok (file _) => .error .notDirectory
    | .ok (folder entries) =>
        .ok (entries.map fun (name, child) => { name, isDirectory := child.isFolder })

/-- Sets the content of a file to a function of what it was; a missing file counts as empty. -/
def update (tree : FileTree) (path : Text) (f : Text → Text) : Except Error FileTree :=
  naming "open" [path] <|
    match tree.locate path with
    | .error cause => .error cause
    | .ok place =>
        match tree.find place with
        | .ok (folder _) => .error .isDirectory
        | .ok (file content) => put (some (file (f content))) tree place
        | .error .notFound => put (some (file (f []))) tree place
        | .error cause => .error cause

/-- Adds an empty folder at the end of a path, where nothing may be yet. A path that ends in the
folder itself or in the one above leads to something that is there. -/
def makeFolder (tree : FileTree) (path : Text) : Except Cause FileTree :=
  let body := Path.dropSlashes path
  if body.isEmpty && !path.isEmpty then .error .alreadyExists
  else
    match tree.locate body with
    | .error cause => .error cause
    | .ok place =>
        if Path.base body = "." || Path.base body = ".." then .error .alreadyExists
        else
          match tree.find place with
          | .ok _ => .error .alreadyExists
          | .error .notFound => put (some (folder [])) tree place
          | .error cause => .error cause

/-- Moves what is at one place to another. A file may replace a file; a folder that is there is
never replaced. -/
def moveTo (tree : FileTree) (source target : Place) : Except Cause FileTree :=
  match tree.find source, tree.find target with
  | .error cause, _ => .error cause
  | .ok _, .ok (folder _) => .error .alreadyExists
  | .ok (folder _), .ok (file _) => .error .notDirectory
  | .ok moved, _ =>
      if source = target then .ok tree
      else if source.isPrefixOf target then .error (.other "invalid argument")
      else
        match put (some moved) tree target with
        | .error cause => .error cause
        | .ok changed => put none changed source

def rename (tree : FileTree) (source target : Text) : Except Error FileTree :=
  naming "rename" [source, target] <|
    match tree.locate source with
    | .error cause => .error cause
    | .ok sourcePlace =>
        match tree.locate target with
        | .error cause => .error cause
        | .ok targetPlace => tree.moveTo sourcePlace targetPlace

/-- Takes a file away. -/
def remove (tree : FileTree) (path : Text) : Except Error FileTree :=
  naming "remove" [path] <|
    match tree.locate path with
    | .error cause => .error cause
    | .ok place =>
        match tree.find place with
        | .error cause => .error cause
        | .ok (folder _) => .error .isDirectory
        | .ok (file _) => put none tree place

/-- Keeps the changed tree, if there is one. -/
def keep (change : FileTree → Except Error FileTree) : StateM FileTree (Except Error PUnit) := do
  match change (← get) with
  | .ok tree => set tree; return .ok ⟨⟩
  | .error error => return .error error

instance : Files (StateM FileTree) where
  read path := return (← get).read path
  write path content := keep fun tree => tree.update path fun _ => content
  append path content := keep fun tree => tree.update path fun known => known ++ content
  list path := return (← get).list path
  stat path := return naming "stat" [path] (info <$> (← get).follow path)
  makeDirectory path := keep fun tree => naming "mkdir" [path] (tree.makeFolder path)
  rename source target := keep fun tree => tree.rename source target
  remove path := keep fun tree => tree.remove path

end FileTree

end Shortfall
