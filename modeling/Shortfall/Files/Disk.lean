import Shortfall.Files
import Shortfall.Text.Utf8

/-!
# Files on a disk
-/

namespace Shortfall.Disk

open Files

/-- What the system says about a failure, starting with a small letter. -/
def detailsOf (error : IO.Error) : Text :=
  let details :=
    match error with
    | .alreadyExists _ _ details | .otherError _ details | .resourceBusy _ details
    | .resourceVanished _ details | .unsupportedOperation _ details | .hardwareFault _ details
    | .unsatisfiedConstraints _ details | .illegalOperation _ details | .protocolError _ details
    | .timeExpired _ details | .interrupted _ _ details | .noFileOrDirectory _ _ details
    | .invalidArgument _ _ details | .permissionDenied _ _ details
    | .resourceExhausted _ _ details | .inappropriateType _ _ details | .noSuchThing _ _ details
    | .userError details => details
    | .unexpectedEof => "unexpected end of file"
  Text.ofString details.decapitalize

def causeOf (error : IO.Error) : Cause :=
  match error with
  | .noFileOrDirectory .. => .notFound
  | error =>
      let details := detailsOf error
      (([Cause.notDirectory, .isDirectory, .alreadyExists].find? fun cause =>
        cause.message = details).getD (.other details))

/-- The outcome of an action on paths, with its failure named. -/
def naming {α : Type} (operation : Text) (paths : List Text) (action : IO α) :
    IO (Except Error α) := do
  try
    return .ok (← action)
  catch error => return .error { operation, paths, cause := causeOf error }

def spelled (path : Text) : String := path.toString

def infoAt (path : Text) : IO Info := do
  let here ← IO.currentDir
  let metadata ← (here / spelled path).metadata
  return if metadata.type == .dir then .directory else .file metadata.byteSize.toNat

def isDirectory (path : Text) : IO Bool := do
  match ← naming "stat" [path] (infoAt path) with
  | .ok info => return info == .directory
  | .error _ => return false

def read (path : Text) : IO (Except Error Text) := do
  if ← isDirectory path then
    return .error { operation := "read", paths := [path], cause := .isDirectory }
  naming "open" [path] do
    let bytes ← IO.FS.readBinFile (spelled path)
    return bytes.toList

def write (mode : IO.FS.Mode) (path content : Text) : IO (Except Error PUnit) := do
  if ← isDirectory path then
    return .error { operation := "open", paths := [path], cause := .isDirectory }
  naming "open" [path] do
    IO.FS.withFile (spelled path) mode fun handle => handle.write ⟨content.toArray⟩

def list (path : Text) : IO (Except Error (List Entry)) :=
  naming "open" [path] do
    let here ← IO.currentDir
    let found ← (here / spelled path).readDir
    let entries ← found.toList.mapM fun entry => do
      return { name := Text.ofString entry.fileName, isDirectory := ← entry.path.isDir : Entry }
    return entries.mergeSort fun a b => Text.atMost a.name b.name

def rename (source target : Text) : IO (Except Error PUnit) := do
  if ← isDirectory target then
    return .error { operation := "rename", paths := [source, target], cause := .alreadyExists }
  naming "rename" [source, target] (IO.FS.rename (spelled source) (spelled target))

instance : Files IO where
  read := read
  write := write .write
  append := write .append
  list := list
  stat path := naming "stat" [path] (infoAt path)
  makeDirectory path := naming "mkdir" [path] (IO.FS.createDir (spelled path))
  rename := rename
  remove path := naming "remove" [path] (IO.FS.removeFile (spelled path))

end Shortfall.Disk
