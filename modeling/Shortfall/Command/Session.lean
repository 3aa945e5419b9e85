import Shortfall.Command.Error
import Shortfall.Catalog.Builtin
import Shortfall.Metrics.Exposition

/-!
# Sessions

What all commands share: the settings of a run, the catalog that the packs make, and the record
that a run leaves behind. A command has no effect but on files. What it prints and what it logs is
part of its outcome.
-/

namespace Shortfall.Command

/-- What a run cannot know by itself. -/
structure Surroundings (m : Type → Type) where
  environment : Text → m (Option Text)
  /-- The name under which the run is recorded. -/
  runId : Text
  timestamp : Text
  /-- The time for the names of files, with milliseconds. -/
  fileTime : Text := (timestamp.dropEnding "Z").replaceByte 0x3A 0x2D ++ ".000"
  /-- The milliseconds since the run began. -/
  elapsedMs : m Int

/-- What a command came to. A command that fails may have printed something before. -/
structure Outcome where
  output : Text := []
  entries : List Log.Entry := []
  error? : Option Error := none

def Outcome.failed (error : Error) (entries : List Log.Entry := []) : Outcome :=
  { entries, error? := some error }

/-! ## Settings -/

/-- The options that give a setting, with its key. -/
def settingOptions : List (Text × Text) := [
  ("log-level", "log.level"),
  ("log-format", "log.format"),
  ("strategy", "analysis.strategy"),
  ("also", "analysis.additional_strategies"),
  ("packs-dir", "catalog.packs_dir"),
  ("metrics-textfile", "metrics.textfile")]

/-- The value of an option as a setting. A list is handed over as the line that is written for
it. -/
def settingOf (options : Options) (name : Text) : Settings.Value :=
  match options.last? name with
  | some (.texts _) => .list ((Text.Csv.reread (options.texts name)).map .text)
  | _ => .text (options.text name)

def givenSettings (options : Options) : Settings.Table :=
  settingOptions.filterMap fun (name, key) =>
    if options.isGiven name then some (key, settingOf options name) else none

structure Session where
  settings : Settings
  log : Log.Config

def Session.start {m : Type → Type} [Monad m] [Files m]
    (environment : Text → m (Option Text)) (options : Options) : m (Except Error Session) := do
  match ← Settings.load environment (givenSettings options) (options.text "config") with
  | .error error => return .error (.settings error)
  | .ok settings =>
      match Log.Config.parse settings.logLevel settings.logFormat with
      | .error error => return .error (.log error)
      | .ok log => return .ok { settings, log }

/-! ## The catalog -/

/-- The entry about a pack that is left out. -/
def skippedPack? (info : Catalog.PackInfo) : Option Log.Entry :=
  info.error?.map fun error =>
    { severity := .warn
      message := "skipping invalid category pack"
      fields := [("pack", .text info.path), ("error", .text error.message)] }

/-- The catalog with the packs applied, and what there is to know about the packs. -/
structure PackedCatalog where
  catalog : Catalog
  infos : List Catalog.PackInfo

def PackedCatalog.entries (packed : PackedCatalog) : List Log.Entry :=
  packed.infos.filterMap skippedPack?

def loadCatalog {m : Type → Type} [Monad m] [Files m] (settings : Settings) :
    m (Except Error PackedCatalog) := do
  match ← Catalog.loadPacks settings.packsDir Catalog.builtin with
  | (_, .error error) => return .error (.packs error)
  | (infos, .ok catalog) => return .ok { catalog, infos }

/-! ## The record of a run -/

def failedWrite (message path error : Text) : Log.Entry :=
  { severity := .warn, message, fields := [("path", .text path), ("error", .text error)] }

/-- Adds an event to the audit log, unless there is none. -/
def recordEvent {m : Type → Type} [Monad m] [Files m] (surroundings : Surroundings m)
    (audit : AuditSettings) (event : Audit.Event) : m (List Log.Entry) := do
  if audit.disabled || audit.path.isEmpty then return []
  let timed := { event with durationMs := ← surroundings.elapsedMs }
  let line := timed.line surroundings.runId surroundings.timestamp
  let log := Audit.logAt audit.path audit.maxSizeMb audit.maxBackups
  match ← log.append surroundings.fileTime line none with
  | (.error error, _) => return [failedWrite "failed to write audit log" audit.path error.message]
  | (.ok _, _) => return []

/-- Writes the metrics to the file for them, unless there is none. -/
def recordMetrics {m : Type → Type} [Monad m] [Files m] (path : Text) (metrics : Metrics) :
    m (List Log.Entry) := do
  let path := path.trim
  if path.isEmpty then return []
  match ← metrics.writeTo path with
  | .error error => return [failedWrite "failed to write metrics" path error.message]
  | .ok _ => return []

/-- Records a run. What cannot be written is reported in the log and fails no command. -/
def recordRun {m : Type → Type} [Monad m] [Files m] (surroundings : Surroundings m)
    (settings : Settings) (event : Audit.Event) (metrics : Metrics) : m (List Log.Entry) := do
  let audit ← recordEvent surroundings settings.audit event
  let written ← recordMetrics settings.metricsTextfile metrics
  return audit ++ written

end Shortfall.Command
