import Shortfall.Command.Session
import Shortfall.Report.Listing

/-!
# Showing the catalog and switching packs
-/

namespace Shortfall.Command

/-- Lists the categories of the catalog with the packs applied. -/
def runCatalog {m : Type → Type} [Monad m] [Files m] (settings : Settings) : m Outcome := do
  match ← loadCatalog settings with
  | .error error => return .failed error
  | .ok packed =>
      return { output := Report.categoryReport packed.catalog, entries := packed.entries }

/-- Lists the packs. -/
def runPacks {m : Type → Type} [Monad m] [Files m] (settings : Settings) : m Outcome := do
  match ← Files.makeDirectories settings.packsDir with
  | .error error => return .failed (.file error)
  | .ok _ =>
      match ← loadCatalog settings with
      | .error error => return .failed error
      | .ok packed =>
          return {
            output := Report.packReport settings.packsDir packed.infos
            entries := packed.entries }

/-- What is said about a pack that was switched. -/
def switchText (enabling : Bool) : Catalog.Switched → Text
  | .changed name =>
      "Pack '" ++ name ++ "' " ++ (if enabling then ("enabled" : Text) else "disabled") ++ "."
  | .already name =>
      "Pack '" ++ name ++ "' is already "
        ++ (if enabling then ("enabled" : Text) else "disabled") ++ "."

/-- Switches a pack on or off. -/
def runSwitch {m : Type → Type} [Monad m] [Files m] (settings : Settings) (enabling : Bool)
    (argument : Text) : m Outcome := do
  match ← Files.makeDirectories settings.packsDir with
  | .error error => return .failed (.file error)
  | .ok _ =>
      match ← Catalog.switchPack enabling settings.packsDir argument with
      | .error error => return .failed (.pack error)
      | .ok switched => return { output := Report.lines [switchText enabling switched] }

/-- Shows the content of a pack. -/
def runShow {m : Type → Type} [Monad m] [Files m] (settings : Settings) (argument : Text) :
    m Outcome := do
  match ← Files.makeDirectories settings.packsDir with
  | .error error => return .failed (.file error)
  | .ok _ =>
      match ← Catalog.packContent settings.packsDir argument with
      | .error error => return .failed (.pack error)
      | .ok content => return { output := Report.lines [content] }

end Shortfall.Command
