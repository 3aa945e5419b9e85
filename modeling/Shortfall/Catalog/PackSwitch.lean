import Shortfall.Files
import Shortfall.Path
import Shortfall.Text.Quoted

/-!
# Switching packs on and off

A pack is switched off by putting an underscore in front of its file name, and on by taking it
away. A pack is named by its file name, with or without the ending, and the name must be that of a
file directly in the packs directory.
-/

namespace Shortfall.Catalog

/-- Why a pack was not switched or shown. -/
inductive SwitchError where
  | badName (argument : Text)
  | notFound (name directory : Text)
  | notMoved (enabling : Bool) (error : Files.Error)
  | unreadable (error : Files.Error)
  deriving DecidableEq, Repr

def SwitchError.message : SwitchError → Text
  | badName argument => "invalid pack name " ++ argument.quoted
  | notFound name directory => "pack '" ++ name ++ "' not found in " ++ directory
  | notMoved enabling error =>
      (if enabling then ("failed to enable pack: " : Text) else "failed to disable pack: ")
        ++ error.message
  | unreadable error => error.message

/-- The name of a pack that an argument stands for. -/
def packName (argument : Text) : Except SwitchError Text :=
  let name := argument.dropEnding ".yaml"
  if name.isEmpty || name = "." || name = ".." || Path.base name ≠ name
      || name.any (fun byte => byte = Path.slash || byte = 0x5C) then
    .error (.badName argument)
  else .ok name

def enabledPath (directory name : Text) : Text := Path.join directory (name ++ ".yaml")

def disabledPath (directory name : Text) : Text := Path.join directory ("_" ++ name ++ ".yaml")

/-- How a pack was found. -/
inductive Switched where
  | changed (name : Text)
  /-- The pack was as wanted before. -/
  | already (name : Text)
  deriving DecidableEq, Repr

/-- Whether there is something at a path. -/
def isThere {m : Type → Type} [Monad m] [Files m] (path : Text) : m Bool := do
  match ← Files.stat path with
  | .ok _ => return true
  | .error _ => return false

/-- Switches a pack on or off. -/
def switchPack {m : Type → Type} [Monad m] [Files m] (enabling : Bool)
    (directory argument : Text) : m (Except SwitchError Switched) := do
  match packName argument with
  | .error error => return .error error
  | .ok name =>
      let (source, target) :=
        if enabling then (disabledPath directory name, enabledPath directory name)
        else (enabledPath directory name, disabledPath directory name)
      if ← isThere source then
        match ← Files.rename source target with
        | .error error => return .error (.notMoved enabling error)
        | .ok _ => return .ok (.changed name)
      else if ← isThere target then return .ok (.already name)
      else return .error (.notFound name directory)

/-- The content of a pack, whether it is switched on or off. -/
def packContent {m : Type → Type} [Monad m] [Files m] (directory argument : Text) :
    m (Except SwitchError Text) := do
  match packName argument with
  | .error error => return .error error
  | .ok name =>
      let enabled := enabledPath directory name
      let disabled := disabledPath directory name
      if ← isThere enabled then content enabled
      else if ← isThere disabled then content disabled
      else return .error (.notFound name directory)
where
  content (path : Text) : m (Except SwitchError Text) := do
    match ← Files.read path with
    | .error error => return .error (.unreadable error)
    | .ok text => return .ok text

end Shortfall.Catalog
