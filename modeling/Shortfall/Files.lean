import Shortfall.Path
import Shortfall.Text

/-!
# Files

The operations on files that the tool needs. They are given as a class over a monad, so that the
same commands run on a disk and on a tree of files held as a value (`Shortfall.Files.Tree`).

A failed operation names what was attempted, the paths it was attempted on and the reason.
-/

namespace Shortfall

namespace Files

inductive Cause where
  | notFound
  | notDirectory
  | isDirectory
  | alreadyExists
  | other (message : Text)
  deriving DecidableEq, Repr

def Cause.message : Cause → Text
  | notFound => "no such file or directory"
  | notDirectory => "not a directory"
  | isDirectory => "is a directory"
  | alreadyExists => "file exists"
  | other message => message

structure Error where
  operation : Text
  paths : List Text
  cause : Cause
  deriving DecidableEq, Repr

def Error.message (e : Error) : Text :=
  e.operation ++ " " ++ Text.joinWith " " e.paths ++ ": " ++ e.cause.message

def Error.isNotFound (e : Error) : Bool := e.cause = .notFound

/-- A name in a directory. -/
structure Entry where
  name : Text
  isDirectory : Bool
  deriving DecidableEq, Repr

/-- What is at a path. -/
inductive Info where
  | directory
  /-- A file with so many bytes. -/
  | file (size : Nat)
  deriving DecidableEq, Repr

end Files

/-- Access to files. -/
class Files (m : Type → Type) where
  read : (path : Text) → m (Except Files.Error Text)
  /-- Creates a file or replaces its content. -/
  write : (path content : Text) → m (Except Files.Error PUnit)
  /-- Adds to the end of a file, which is created when it is missing. -/
  append : (path content : Text) → m (Except Files.Error PUnit)
  /-- The names in a directory, in ascending order. -/
  list : (path : Text) → m (Except Files.Error (List Files.Entry))
  stat : (path : Text) → m (Except Files.Error Files.Info)
  /-- Creates a directory in one that is there. -/
  makeDirectory : (path : Text) → m (Except Files.Error PUnit)
  /-- Moves what is at the first path to the second; a file there is replaced. -/
  rename : (source target : Text) → m (Except Files.Error PUnit)
  /-- Removes a file. -/
  remove : (path : Text) → m (Except Files.Error PUnit)

namespace Files

variable {m : Type → Type} [Monad m] [Files m]

/-- Creates the first of some paths, each of which leads to what holds the one before it. What is
missing is created from the outside in; a path that turns out to be a directory after all is
no failure. -/
def makeInnermost : List Text → m (Except Error PUnit)
  | [] => return .ok ⟨⟩
  | path :: outer => do
      match ← stat path with
      | .ok .directory => return .ok ⟨⟩
      | .ok (.file _) =>
          return .error { operation := "mkdir", paths := [path], cause := .notDirectory }
      | .error _ =>
          match ← makeInnermost outer with
          | .error error => return .error error
          | .ok _ =>
              match ← makeDirectory path with
              | .ok _ => return .ok ⟨⟩
              | .error error =>
                  match ← stat path with
                  | .ok .directory => return .ok ⟨⟩
                  | _ => return .error error

/-- Creates a directory with those above it, following the path as it is written. -/
def makeDirectories (path : Text) : m (Except Error PUnit) :=
  makeInnermost (path :: Path.ancestors path)

end Files

end Shortfall
