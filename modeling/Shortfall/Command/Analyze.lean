import Shortfall.Catalog.Disguise
import Shortfall.Command.Taint
import Shortfall.Gap.Classification
import Shortfall.Report.Gaps

/-!
# Analyzing a test suite

The intents of the tests are compared with the findings of a scanner and with the violations that
statement programs show. A run may be made to fail by gaps of a certain risk.
-/

namespace Shortfall.Command

open Gap

/-- What an analysis is asked to do. -/
structure AnalyzeRequest where
  intent : Text
  taint : Text
  programs : List Text
  sequential : Bool

def AnalyzeRequest.ofOptions (options : Options) : AnalyzeRequest where
  intent := options.text "intent"
  taint := options.text "taint"
  programs := options.texts "program"
  sequential := options.switch "sequential"

/-- The files that an analysis reads. -/
def AnalyzeRequest.inputs (request : AnalyzeRequest) : List Text :=
  (request.intent :: request.taint :: request.programs).filter (!·.isEmpty)

/-- What an analysis came to. -/
structure Analysis where
  outcome : Except Error Result
  violations : Nat := 0
  metrics : Metrics := {}
  entries : List Log.Entry := []

/-! ## Parts of an analysis -/

/-- The texts of an intent. -/
def intentTexts (intent : TestIntent) : List Text :=
  intent.testName :: intent.expectedBehavior :: intent.securityRequirements

/-- The entry about an intent that is not what it looks like. -/
def disguiseEntry? (intent : TestIntent) : Option Log.Entry :=
  if (intentTexts intent).any Catalog.isDisguised then
    some {
      severity := .warn
      message := "intent text contains hidden or look-alike characters"
      fields := [("test", .text intent.testName)] }
  else none

/-- A report with the violations of programs added to its findings. -/
def addRuns (catalog : Catalog) (report : TaintReport) (runs : List ProgramRun) : TaintReport :=
  let added := runs.flatMap fun run =>
    vulnerabilitiesOf catalog run.findings.program run.findings.violations
  if added.isEmpty then report
  else { report with vulnerabilities? := some (report.vulnerabilities?.getD [] ++ added) }

/-- The entry that announces an analysis. -/
def announcement (config : Config) (intent : IntentReport) (taint : TaintReport) : Log.Entry where
  severity := .debug
  message := "running gap analysis"
  fields := [
    ("strategy", .text config.strategy),
    ("additional", .texts config.additional),
    ("intents", .number (intent.testIntents?.getD []).length),
    ("vulnerabilities", .number (taint.vulnerabilities?.getD []).length)]

/-- Detects the gaps between two reports. -/
def detect (config : Config) (catalog : Catalog) (intent : IntentReport) (taint : TaintReport) :
    Traced (Except Error Result) :=
  match Detector.ofConfig config catalog .standard with
  | .error error => { value := .error (.strategy error) }
  | .ok detector =>
      let traced := detector.analyze { intent? := some intent, taint? := some taint }
      { value :=
          match traced.value with
          | .ok result => .ok result
          | .error error => .error (.analysis error)
        entries := announcement config intent taint :: traced.entries
        observations := traced.observations }

/-- The findings of a scanner; without a file there are none. -/
def loadFindings {m : Type → Type} [Monad m] [Files m] (path : Text) :
    m (Except DocumentLoadError TaintReport) :=
  if path.isEmpty then return .ok { vulnerabilities? := some [] } else TaintReport.load path

/-! ## The whole -/

/-- An analysis of reports that were loaded. -/
def analyzeReports {m : Type → Type} [Monad m] [Files m] (config : Config) (catalog : Catalog)
    (request : AnalyzeRequest) (intent : IntentReport) (taint : TaintReport) : m Analysis := do
  let disguises := (intent.testIntents?.getD []).filterMap disguiseEntry?
  let all ← runPrograms request.programs
  let entries := disguises ++ all.entries
  match all.error? with
  | some error =>
      return { outcome := .error (.program error), violations := all.violations, entries }
  | none =>
      let config := { config with concurrent := config.concurrent && !request.sequential }
      let traced := detect config catalog intent (addRuns catalog taint all.runs)
      let metrics := Metrics.addViolations {} all.violations
      return {
        outcome := traced.value
        violations := all.violations
        metrics := metrics.observeAll traced.observations
        entries := entries ++ traced.entries }

def analyze {m : Type → Type} [Monad m] [Files m] (config : Config) (catalog : Catalog)
    (request : AnalyzeRequest) : m Analysis := do
  match ← IntentReport.load request.intent with
  | .error error => return { outcome := .error (.document error) }
  | .ok intent =>
      match ← loadFindings request.taint with
      | .error error => return { outcome := .error (.document error) }
      | .ok taint => analyzeReports config catalog request intent taint

/-- The event of an analysis. -/
def Analysis.event (analysis : Analysis) (config : Config) (request : AnalyzeRequest) :
    Audit.Event :=
  let event : Audit.Event :=
    { command := "analyze"
      inputs := request.inputs
      strategy := config.strategy
      additional := config.additional
      violations := analysis.violations }
  match analysis.outcome with
  | .ok result => { event with summary? := some result.summary }
  | .error error => { event with error := error.message }

/-- The risk at which a run fails, if one is asked for. -/
def failureThreshold? (options : Options) : Except Error (Option Risk) :=
  let name := options.text "fail-on"
  if name.isEmpty then .ok none
  else
    match Risk.parse name with
    | .ok risk => .ok (some risk)
    | .error error => .error (.badThreshold error)

/-- The error of a run with a gap at or above the threshold. -/
def thresholdError? (threshold? : Option Risk) (result : Result) : Option Error :=
  match threshold? with
  | none => none
  | some threshold =>
      if result.gaps.any fun gap => threshold.rank ≤ gap.risk.rank then
        some (.gapsFound threshold)
      else none

/-- Analyzes and reports the gaps. -/
def runAnalyze {m : Type → Type} [Monad m] [Files m] (surroundings : Surroundings m)
    (settings : Settings) (options : Options) : m Outcome := do
  let request := AnalyzeRequest.ofOptions options
  if request.taint.isEmpty && request.programs.isEmpty then return .failed .noFindings
  match failureThreshold? options with
  | .error error => return .failed error
  | .ok threshold? =>
      match ← loadCatalog settings with
      | .error error => return .failed error
      | .ok packed =>
          let analysis ← analyze settings.analysis packed.catalog request
          let event := analysis.event settings.analysis request
          let recorded ← recordRun surroundings settings event analysis.metrics
          let entries := packed.entries ++ analysis.entries ++ recorded
          match analysis.outcome with
          | .error error => return .failed error entries
          | .ok result =>
              let shown := Report.redactResult result
              return {
                output :=
                  if options.switch "json" then Report.gapDocument shown
                  else Report.gapReport shown
                entries
                error? := thresholdError? threshold? result }

end Shortfall.Command
