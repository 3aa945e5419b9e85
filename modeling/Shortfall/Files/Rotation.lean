import Shortfall.Calendar
import Shortfall.Files
import Shortfall.Word

/-!
# Files that are rotated

Lines are added to the end of a file up to a limit of its size. A line that would take the file
beyond the limit starts it anew: the file is moved aside, to a name that tells the time. Of the
files that were moved aside before, only the newest are kept. A line that is longer than the limit
is refused.

The file is opened with the first line that is added to it, and made with the directories above it
when it is missing. From then on its size is known (`size?`), and nobody else is taken to change it.
Old files are removed beside the lines that are added; here that is done as soon as it is due.
-/

namespace Shortfall

/-- A file with a limit. -/
structure RotatingFile where
  path : Text
  /-- The most bytes that the file may have. -/
  limit : Int
  /-- How many older files are kept; without a positive number, all of them. -/
  backups : Int
  deriving DecidableEq, Repr

namespace RotatingFile

/-- Why a line was not added. -/
inductive Error where
  | tooLong (length : Nat) (limit : Int)
  | unknownState (error : Files.Error)
  | noDirectory (error : Files.Error)
  | unmovable (error : Files.Error)
  | notOpened (error : Files.Error)
  | notWritten (error : Files.Error)
  deriving DecidableEq, Repr

def Error.message : Error → Text
  | tooLong length limit =>
      "write length " ++ Text.ofNat length ++ " exceeds maximum file size " ++ Text.ofInt limit
  | unknownState error => "error getting log file info: " ++ error.message
  | noDirectory error => "can't make directories for new logfile: " ++ error.message
  | unmovable error => "can't rename log file: " ++ error.message
  | notOpened error => "can't open new logfile: " ++ error.message
  | notWritten error => error.message

/-- The bytes of a number of megabytes, kept in a word. -/
def bytesOf (megabytes : Int) : Int := (megabytes * 1048576).bmod Word.count

/-! ## Older files -/

variable (file : RotatingFile)

def directory : Text := Path.directory file.path

def name : Text := Path.base file.path

def ending : Text := Path.extension file.name

/-- What the names of older files begin with. -/
def front : Text := file.name.dropEnding file.ending ++ "-"

/-- The path to which the file is moved at a time. -/
def asidePath (time : Text) : Text := Path.join file.directory (file.front ++ time ++ file.ending)

/-- The ending of older files that were compressed. -/
def compressed : Text := ".gz"

/-- The time in a name with the given ending. -/
def timeBefore? (ending name : Text) : Option Calendar.Moment :=
  let rest : Text := name.drop file.front.length
  if name.startsWith file.front && rest.endsWith ending then
    Calendar.parseFileTime? (rest.dropEnding ending)
  else none

/-- When a file of the directory was moved aside, if it is an older one. -/
def timeOf? (name : Text) : Option Calendar.Moment :=
  (file.timeBefore? file.ending name).or (file.timeBefore? (file.ending ++ compressed) name)

/-- The names of the older files among those of the directory, the newest first. -/
def olderNames (entries : List Files.Entry) : List Text :=
  let found := entries.filterMap fun entry =>
    if entry.isDirectory then none
    else (file.timeOf? entry.name).map fun time => (time.nanoseconds, entry.name)
  (found.mergeSort fun a b => b.1 ≤ a.1).map (·.2)

/-- The names behind those that are kept. A file and its compressed form count once. -/
def surplus (kept : Nat) : (seen names : List Text) → List Text
  | _, [] => []
  | seen, name :: rest =>
      let seen := seen.insert (name.dropEnding compressed)
      let later := surplus kept seen rest
      if kept < seen.length then name :: later else later

variable {m : Type → Type} [Monad m] [Files m]

/-- Removes files; one that cannot be removed stays. -/
def removeAll : (paths : List Text) → m PUnit
  | [] => return ⟨⟩
  | path :: rest => do
      let _ ← Files.remove path
      removeAll rest

/-- Removes the older files beyond the number that is kept. -/
def prune : m PUnit := do
  if file.backups ≤ 0 then return ⟨⟩
  match ← Files.list file.directory with
  | .error _ => return ⟨⟩
  | .ok entries =>
      let names := surplus file.backups.toNat [] (file.olderNames entries)
      removeAll (names.map (Path.join file.directory))

/-! ## Opening -/

/-- Makes the file, or empties it. -/
def create (failed : Files.Error → Error) : m (Except Error PUnit) := do
  match ← Files.write file.path [] with
  | .error error => return .error (failed error)
  | .ok _ => return .ok ⟨⟩

/-- Opens the file as an empty one. What is in its place is moved aside. -/
def openNew (time : Text) : m (Except Error PUnit) := do
  match ← Files.makeDirectories file.directory with
  | .error error => return .error (.noDirectory error)
  | .ok _ =>
      match ← Files.stat file.path with
      | .error _ => file.create .notOpened
      | .ok _ =>
          match ← Files.rename file.path (file.asidePath time) with
          | .error error => return .error (.unmovable error)
          | .ok _ => file.create .notWritten

def rotate (time : Text) : m (Except Error PUnit) := do
  match ← file.openNew time with
  | .error error => return .error error
  | .ok _ =>
      file.prune
      return .ok ⟨⟩

/-- An action that leaves the file empty, with the size of the file. -/
def emptied (action : m (Except Error PUnit)) : m (Except Error Nat) := do
  match ← action with
  | .error error => return .error error
  | .ok _ => return .ok 0

/-- Opens the file for a line of the given length, and gives its size. Something that cannot be
opened is moved aside. -/
def openFor (time : Text) (length : Nat) : m (Except Error Nat) := do
  file.prune
  match ← Files.stat file.path with
  | .error error =>
      if error.isNotFound then emptied (file.openNew time) else return .error (.unknownState error)
  | .ok .directory => emptied (file.openNew time)
  | .ok (.file size) =>
      if file.limit ≤ size + length then emptied (file.rotate time)
      else
        match ← Files.append file.path [] with
        | .error _ => emptied (file.openNew time)
        | .ok _ => return .ok size

/-- The size of the file, which is opened unless it is open. -/
def sizeFor (time : Text) (length : Nat) : (size? : Option Nat) → m (Except Error Nat)
  | some size => return .ok size
  | none => file.openFor time length

/-! ## Adding lines -/

/-- Adds a line to the open file, and gives the size that the file has then. -/
def put (line : Text) (size : Nat) : m (Except Error PUnit × Option Nat) := do
  match ← Files.append file.path line with
  | .error error => return (.error (.notWritten error), some size)
  | .ok _ => return (.ok ⟨⟩, some (size + line.length))

/-- Adds a line to the file, whose size is given if it is open, and gives the size that it has
then. -/
def append (time line : Text) (size? : Option Nat) : m (Except Error PUnit × Option Nat) := do
  if file.limit < line.length then
    return (.error (.tooLong line.length file.limit), size?)
  match ← file.sizeFor time line.length size? with
  | .error error => return (.error error, none)
  | .ok size =>
      if file.limit < size + line.length then
        match ← file.rotate time with
        | .error error => return (.error error, none)
        | .ok _ => file.put line 0
      else file.put line size

end RotatingFile

end Shortfall
