import Shortfall.Files
import Shortfall.Gap.Detector
import Shortfall.Path
import Shortfall.Settings.Conversion
import Shortfall.Settings.File

/-!
# Settings

A setting is taken from the first source that has it: the command line, the environment, the
configuration file, and at last its default. Settings come in groups; a variable or a file entry
that gives a value to a whole group hides what other sources say about its members.
-/

namespace Shortfall

/-- How runs are recorded. -/
structure AuditSettings where
  path : Text := []
  maxSizeMb : Int := 0
  maxBackups : Int := 0
  disabled : Bool := false
  deriving DecidableEq, Repr

structure Settings where
  configDir : Text := []
  analysis : Gap.Config
  packsDir : Text := []
  logLevel : Text := []
  logFormat : Text := []
  audit : AuditSettings := {}
  metricsTextfile : Text := []
  deriving DecidableEq, Repr

namespace Settings

/-! ## Sources -/

/-- Where settings come from, apart from their defaults. -/
structure Sources where
  /-- The settings given on the command line, by key. -/
  given : Table := []
  environment : Text → Option Text := fun _ => none
  file : Table := []

/-- The name of the variable for a key. -/
def variableFor (key : Text) : Text := (("SECGAP_" : Text) ++ key).upper.replaceByte 0x2E 0x5F

namespace Sources

/-- The variable for a key; an empty one does not count. -/
def fromEnvironment? (sources : Sources) (key : Text) : Option Text :=
  match sources.environment (variableFor key) with
  | some [] => none
  | found => found

/-- An entry that holds something. -/
def something? (name : Text) (table : Table) : Option Value :=
  (Value.entry? name table).filter (!·.isNothing)

/-- What the file says about a member of a group, under its full name or inside the group. -/
def fromFile? (sources : Sources) (group name : Text) : Option Value :=
  match something? (group ++ "." ++ name) sources.file with
  | some value => some value
  | none =>
      match Value.entry? group sources.file with
      | some (.table entries) => something? name entries
      | _ => none

/-- The value of a member of a group. -/
def member? (sources : Sources) (group name : Text) (default : Value) : Option Value :=
  let key := group ++ "." ++ name
  match Value.entry? key sources.given with
  | some value => some value
  | none =>
      match sources.fromEnvironment? key with
      | some text => some (.text text)
      | none =>
          if (sources.fromEnvironment? group).isSome then none
          else some ((sources.fromFile? group name).getD default)

/-- The members of a group that have a value. -/
def members (sources : Sources) (group : Text) (defaults : Table) : Table :=
  defaults.filterMap fun (name, default) =>
    (sources.member? group name default).map fun value => (name, value)

/-- The value of a whole group. -/
def group (sources : Sources) (name : Text) (defaults : Table) : Value :=
  match Value.entry? name sources.file with
  | none | some (.table _) => .table (sources.members name defaults)
  | some value =>
      match sources.fromEnvironment? name with
      | some text => .text text
      | none => if value.isNothing then .table defaults else value

end Sources

/-! ## Groups -/

/-- A group of settings, once it is known to be a table. -/
structure Group where
  name : Text
  entries : Table
  issues : List Issue

def Group.ofValue (name : Text) : Value → Group
  | .table entries => { name, entries, issues := [] }
  | .moment _ => { name, entries := [], issues := [] }
  | value => { name, entries := [], issues := [.noTable name value.kindName] }

/-- A member of a group; a missing one converts like nothing. -/
def Group.get {α : Type} (group : Group) (convert : Conversion α) (name : Text) : Checked α :=
  convert (group.name ++ "." ++ name) ((Value.entry? name group.entries).getD .nothing)

def analysisDefaults : Table := [
  ("strategy", .text Gap.Strategy.defaultKey),
  ("additional_strategies", .list []),
  ("concurrent", .flag true),
  ("max_concurrency", .int 4)]

def catalogDefaults (configDir : Text) : Table :=
  [("packs_dir", .text (Path.join configDir "packs"))]

def logDefaults : Table := [("level", .text "info"), ("format", .text "console")]

def auditDefaults (configDir : Text) : Table := [
  ("path", .text (Path.join configDir "audit.jsonl")),
  ("max_size_mb", .int 10),
  ("max_backups", .int 3),
  ("disabled", .flag false)]

def metricsDefaults : Table := [("textfile", .text [])]

/-- All groups, with the defaults of their members. -/
def groups (configDir : Text) : List (Text × Table) := [
  ("analysis", analysisDefaults),
  ("catalog", catalogDefaults configDir),
  ("log", logDefaults),
  ("audit", auditDefaults configDir),
  ("metrics", metricsDefaults)]

/-- The variables that settings depend on. -/
def variableNames : List Text :=
  (groups []).flatMap fun (group, defaults) =>
    variableFor group :: defaults.map fun (name, _) => variableFor (group ++ "." ++ name)

/-- The settings of all groups, and what is wrong with them. -/
def collect (sources : Sources) (configDir : Text) : Checked Settings :=
  let group := fun (name : Text) (defaults : Table) =>
    Group.ofValue name (sources.group name defaults)
  let analysis := group "analysis" analysisDefaults
  let strategy := analysis.get .text "strategy"
  let additional := analysis.get .texts "additional_strategies"
  let concurrent := analysis.get .flag "concurrent"
  let maxConcurrency := analysis.get .int "max_concurrency"
  let catalog := group "catalog" (catalogDefaults configDir)
  let packsDir := catalog.get .text "packs_dir"
  let log := group "log" logDefaults
  let level := log.get .text "level"
  let format := log.get .text "format"
  let audit := group "audit" (auditDefaults configDir)
  let path := audit.get .text "path"
  let maxSizeMb := audit.get .int "max_size_mb"
  let maxBackups := audit.get .int "max_backups"
  let disabled := audit.get .flag "disabled"
  let metrics := group "metrics" metricsDefaults
  let textfile := metrics.get .text "textfile"
  { value :=
      { configDir
        analysis :=
          { strategy := strategy.value
            additional := additional.value
            concurrent := concurrent.value
            maxConcurrency := maxConcurrency.value }
        packsDir := packsDir.value
        logLevel := level.value
        logFormat := format.value
        audit :=
          { path := path.value
            maxSizeMb := maxSizeMb.value
            maxBackups := maxBackups.value
            disabled := disabled.value }
        metricsTextfile := textfile.value }
    issues :=
      analysis.issues ++ strategy.issues ++ additional.issues ++ concurrent.issues
        ++ maxConcurrency.issues ++ catalog.issues ++ packsDir.issues ++ log.issues ++ level.issues
        ++ format.issues ++ audit.issues ++ path.issues ++ maxSizeMb.issues ++ maxBackups.issues
        ++ disabled.issues ++ metrics.issues ++ textfile.issues }

/-! ## Checks -/

/-- A value that no setting may have. -/
inductive Complaint where
  | emptyStrategy
  | maxConcurrency (n : Int)
  | logFormat (format : Text)
  | maxSizeMb (n : Int)
  deriving DecidableEq, Repr

def Complaint.message : Complaint → Text
  | emptyStrategy => "analysis.strategy must not be empty"
  | maxConcurrency n => "analysis.max_concurrency must be at least 1, got " ++ Text.ofInt n
  | logFormat format => "log.format must be console or json, got " ++ format.quoted
  | maxSizeMb n => "audit.max_size_mb must be at least 1, got " ++ Text.ofInt n

/-- The first value that may not be. -/
def complaint? (settings : Settings) : Option Complaint :=
  if settings.analysis.strategy.trim.isEmpty then some .emptyStrategy
  else if settings.analysis.maxConcurrency < 1 then
    some (.maxConcurrency settings.analysis.maxConcurrency)
  else if settings.logFormat.lower ≠ "console" && settings.logFormat.lower ≠ "json" then
    some (.logFormat settings.logFormat)
  else if settings.audit.maxSizeMb < 1 then some (.maxSizeMb settings.audit.maxSizeMb)
  else none

/-- A path in which a tilde in front stands for the home directory. -/
def expandHome (path home : Text) : Text :=
  if path = "~" then home
  else if path.startsWith "~/" then Path.join home (path.drop 2)
  else path

def expandPaths (home : Text) (settings : Settings) : Settings :=
  { settings with
    packsDir := expandHome settings.packsDir home
    audit := { settings.audit with path := expandHome settings.audit.path home }
    metricsTextfile := expandHome settings.metricsTextfile home }

/-! ## Loading -/

/-- Why the configuration file cannot be used. -/
inductive FileError where
  | unsupported (type : Text)
  | unreadable (error : Files.Error)
  | malformed (error : FormatError)
  deriving DecidableEq, Repr

def FileError.message : FileError → Text
  | unsupported type => "Unsupported Config Type " ++ type.quoted
  | unreadable error => error.message
  | malformed error => "While parsing config: " ++ error.message

/-- Why there are no settings. -/
inductive Error where
  | noHome
  | noDirectory (error : Files.Error)
  | badFile (error : FileError)
  | undecodable (issues : List Issue)
  | invalid (complaint : Complaint)
  deriving DecidableEq, Repr

def Error.message : Error → Text
  | noHome => "$HOME is not defined"
  | noDirectory error => error.message
  | badFile error => "reading config file: " ++ error.message
  | undecodable issues =>
      "decoding config: decoding failed due to the following error(s):\n\n"
        ++ Text.joinWith "\n" (issues.map Issue.message)
  | invalid complaint => "invalid configuration: " ++ complaint.message

/-- The endings that a configuration file may have. -/
def endings : List Text :=
  ["json", "toml", "yaml", "yml", "properties", "props", "prop", "hcl", "tfvars", "dotenv", "env",
    "ini"]

section

variable {m : Type → Type} [Monad m] [Files m]

/-- The table in the file at a path, whose ending tells its format. -/
def readFile (environment : Text → m (Option Text)) (path : Text) :
    m (Except FileError Table) := do
  let ending := (Path.extension path).drop 1
  if !endings.contains ending then return .error (.unsupported ending)
  match ← Files.read path with
  | .error error => return .error (.unreadable error)
  | .ok content =>
      match Format.ofEnding? ending with
      | none => return .error (.malformed .noReader)
      | some format =>
          match ← format.parse environment content with
          | .error error => return .error (.malformed error)
          | .ok table => return .ok table

/-- The first of some names that a directory has a file of. -/
def findFile (directory : Text) : List Text → m (Option Text)
  | [] => return none
  | name :: rest => do
      let path := Path.join directory name
      match ← Files.stat path with
      | .ok (.file _) => return some path
      | _ => findFile directory rest

/-- The table in the configuration file of a directory, which is read as YAML under any of its
names. A directory without such a file has no settings. -/
def searchFile (environment : Text → m (Option Text)) (directory : Text) :
    m (Except FileError Table) := do
  let names := endings.map (("config." : Text) ++ ·) ++ [("config" : Text)]
  match ← findFile directory names with
  | none => return .ok []
  | some path =>
      match ← Files.read path with
      | .error error => return .error (.unreadable error)
      | .ok content =>
          match ← Format.yaml.parse environment content with
          | .error error => return .error (.malformed error)
          | .ok table => return .ok table

/-- Makes a directory that is missing. Anything else in its place is left alone. -/
def ensureDirectory (path : Text) : m (Except Files.Error PUnit) := do
  match ← Files.stat path with
  | .error error => if error.isNotFound then Files.makeDirectories path else return .ok ⟨⟩
  | .ok _ => return .ok ⟨⟩

/-- The variables of the environment that settings are taken from. -/
def knownVariables (environment : Text → m (Option Text)) : m (List (Text × Text)) := do
  let found ← variableNames.mapM fun name => do
    return (← environment name).map fun value => (name, value)
  return found.filterMap id

/-- The settings from all sources. An empty path stands for the file in the configuration
directory. -/
def load (environment : Text → m (Option Text)) (given : Table) (path : Text) :
    m (Except Error Settings) := do
  let home := (← environment "HOME").getD []
  if home.isEmpty then return .error .noHome
  let configDir := Path.join home ".secgap"
  match ← ensureDirectory configDir with
  | .error error => return .error (.noDirectory error)
  | .ok _ =>
      match ← if path.isEmpty then searchFile environment configDir
        else readFile environment path with
      | .error error => return .error (.badFile error)
      | .ok file =>
          let known ← knownVariables environment
          let collected :=
            collect { given, environment := fun name => known.lookup name, file } configDir
          if !collected.issues.isEmpty then return .error (.undecodable collected.issues)
          let settings := collected.value.expandPaths home
          match settings.complaint? with
          | some complaint => return .error (.invalid complaint)
          | none => return .ok settings

end

end Settings

end Shortfall
