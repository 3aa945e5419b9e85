import Shortfall.Catalog
import Shortfall.Files
import Shortfall.Path

/-!
# Override packs

A pack is a catalog document in the packs directory. Packs are applied in the order of their file
names. A new category is added at the end of the catalog; for a category that is there, what the
pack says is added behind what is known. A file whose name starts with an underscore is listed
and not applied, and one that cannot be read is listed with the reason.
-/

namespace Shortfall

/-- A category with what an addition says about it. -/
def Category.extend (category addition : Category) : Category :=
  { category with
    name := if category.name.isEmpty then addition.name else category.name
    triggers := appendNew category.triggers addition.triggers
    recommendations := appendNew category.recommendations addition.recommendations
    cwe := appendNew category.cwe addition.cwe }

namespace Catalog

/-- Adds one category to a list: to the category with its tag, or else at the end. -/
def mergeCategory (categories : List Category) (addition : Category) : List Category :=
  let id := normalizeId addition.id
  if categories.any fun category => normalizeId category.id = id then
    categories.map fun category =>
      if normalizeId category.id = id then category.extend addition else category
  else categories ++ [{ addition with id }]

def mergeCategories (categories additions : List Category) : List Category :=
  additions.foldl mergeCategory categories

/-! ## Pack files -/

/-- Whether a file name is that of a pack. -/
def isPackName (name : Text) : Bool :=
  let ending := (Path.extension name).lower
  ending = ".yaml" || ending = ".yml"

/-- A file in the packs directory, as far as it could be read. -/
structure PackFile where
  name : Text
  content : Except Files.Error Text

namespace PackFile

def baseName (file : PackFile) : Text := Path.stem file.name

def isEnabled (file : PackFile) : Bool := !file.baseName.startsWith "_"

end PackFile

/-- Why a pack could not be read. -/
inductive PackError where
  | unreadable (error : Files.Error)
  | malformed (path : Text) (fault : Yaml.Fault)
  deriving DecidableEq, Repr

def PackError.message : PackError → Text
  | unreadable error => error.message
  | malformed path fault => "failed to parse pack " ++ path ++ ": " ++ fault.message

/-- What a listing of packs shows. -/
structure PackInfo where
  name : Text
  description : Text := []
  version : Text := []
  author : Text := []
  enabled : Bool
  path : Text
  categoryCount : Nat := 0
  error? : Option PackError := none
  deriving DecidableEq, Repr

/-- The document of a pack at a path. -/
def PackFile.document (file : PackFile) (path : Text) : Except PackError Document :=
  match file.content with
  | .error error => .error (.unreadable error)
  | .ok content =>
      match Document.parse content with
      | .error fault => .error (.malformed path fault)
      | .ok document => .ok document

def PackInfo.ofFile (directory : Text) (file : PackFile) : PackInfo :=
  let path := Path.join directory file.name
  match file.document path with
  | .error error => { name := file.baseName, enabled := file.isEnabled, path, error? := some error }
  | .ok document =>
      { name := if document.name.isEmpty then file.baseName else document.name
        description := document.description
        version := document.version
        author := document.author
        enabled := file.isEnabled
        path
        categoryCount := document.categories.length }

/-- The categories that a file adds: those of an enabled pack that can be read. -/
def PackFile.additions (file : PackFile) (directory : Text) : List Category :=
  match file.document (Path.join directory file.name) with
  | .ok document => if file.isEnabled then document.categories else []
  | .error _ => []

/-- Applies packs to a catalog, in order. The listing is given also when the outcome is no
catalog. -/
def applyPacks (directory : Text) (files : List PackFile) (base : Catalog) :
    List PackInfo × Except Error Catalog :=
  let packs := files.filter fun file => isPackName file.name
  (packs.map (PackInfo.ofFile directory),
    build (packs.foldl (fun merged file => mergeCategories merged (file.additions directory))
      base.categories))

/-- Why the packs directory gives no catalog. -/
inductive LoadError where
  | unreadable (error : Files.Error)
  | invalid (error : Error)
  deriving DecidableEq, Repr

def LoadError.message : LoadError → Text
  | unreadable error => error.message
  | invalid error => error.message

/-- Reads the files of a directory that are no directories themselves. -/
def readAll {m : Type → Type} [Monad m] [Files m] (directory : Text) :
    List Files.Entry → m (List PackFile)
  | [] => return []
  | entry :: rest => do
      if entry.isDirectory || !isPackName entry.name then return ← readAll directory rest
      let content ← Files.read (Path.join directory entry.name)
      return { name := entry.name, content } :: (← readAll directory rest)

/-- Applies the packs in a directory to a catalog. A directory that is missing holds none. -/
def loadPacks {m : Type → Type} [Monad m] [Files m] (directory : Text) (base : Catalog) :
    m (List PackInfo × Except LoadError Catalog) := do
  match ← Files.list directory with
  | .error error =>
      return ([], if error.isNotFound then .ok base else .error (.unreadable error))
  | .ok entries =>
      let (infos, result) := applyPacks directory (← readAll directory entries) base
      return (infos, match result with
        | .ok catalog => .ok catalog
        | .error error => .error (.invalid error))

end Catalog

end Shortfall
