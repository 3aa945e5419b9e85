import Shortfall.Files
import Shortfall.Gap.Finding
import Shortfall.Json.Decoding
import Shortfall.Json.Parser
import Shortfall.Json.Schema

/-!
# Reports as documents

The reports of extractors and scanners are JSON documents. A document is first checked against the
rules of its kind, which see member names as they are written, and then decoded, which does not
mind their case. Either step can refuse it.
-/

namespace Shortfall.Gap

open Json (Rule Problem Decoder)
open Json.Decoder (Field Cells)

/-- The kinds of documents. -/
inductive DocumentKind where
  | intent
  | taint
  deriving DecidableEq, Repr

def DocumentKind.name : DocumentKind → Text
  | intent => "intent"
  | taint => "vulnerabilities"

/-- Why a text is no document of a kind. -/
inductive DocumentError where
  | notJson (kind : DocumentKind)
  | invalid (kind : DocumentKind) (problems : List Problem)
  | undecodable (kind : DocumentKind)
  deriving DecidableEq, Repr

def DocumentError.message : DocumentError → Text
  | notJson kind => "parsing " ++ kind.name ++ " document"
  | invalid kind problems =>
      "invalid " ++ kind.name ++ " document: " ++ Text.joinWith "; "
        (problems.map fun problem => problem.field ++ ": " ++ problem.description)
  | undecodable kind => "decoding " ++ kind.name ++ " document"

/-- Checks the first value of a text against a rule. What stands behind it does not matter. -/
def validate (kind : DocumentKind) (rule : Rule) (text : Text) : Except DocumentError Unit :=
  match Json.first? text with
  | none => .error (.notJson kind)
  | some (value, _) =>
      match rule.problems value with
      | [] => .ok ()
      | problems => .error (.invalid kind problems)

/-- A risk by its name. -/
def riskDecoder : Decoder Risk := .word fun name => (Risk.parse name).toOption

/-! ## Intent reports -/

def testIntentRule : Rule :=
  .record ["testName"] [
    ("testName", .nonemptyText),
    ("expectedBehavior", .text),
    ("securityRequirements", .list true .text),
    ("riskLevel", .word ["low", "medium", "high", "critical"])]

def intentSummaryRule : Rule :=
  .record [] [
    ("totalTests", .count),
    ("highRiskTests", .count),
    ("mediumRiskTests", .count),
    ("lowRiskTests", .count)]

def intentRule : Rule :=
  .record ["testIntents"] [
    ("testIntents", .list false testIntentRule),
    ("summary", intentSummaryRule)]

/-- A test intent while it is read. -/
structure IntentDraft where
  testName : Text := []
  expectedBehavior : Text := []
  securityRequirements : Option (Cells Text) := none
  risk : Risk := .low

def IntentDraft.intent (draft : IntentDraft) : TestIntent where
  testName := draft.testName
  expectedBehavior := draft.expectedBehavior
  securityRequirements := Decoder.itemsOf draft.securityRequirements
  risk := draft.risk

def intentDecoder : Decoder IntentDraft := .record [
  .of "testName" .text (·.testName) (fun d v => { d with testName := v }),
  .of "expectedBehavior" .text (·.expectedBehavior) (fun d v => { d with expectedBehavior := v }),
  .of "securityRequirements" .texts (·.securityRequirements)
    (fun d v => { d with securityRequirements := v }),
  .of "riskLevel" riskDecoder (·.risk) (fun d v => { d with risk := v })]

def intentSummaryDecoder : Decoder IntentSummary := .record [
  .of "totalTests" .int (·.totalTests) (fun s v => { s with totalTests := v }),
  .of "highRiskTests" .int (·.highRiskTests) (fun s v => { s with highRiskTests := v }),
  .of "mediumRiskTests" .int (·.mediumRiskTests) (fun s v => { s with mediumRiskTests := v }),
  .of "lowRiskTests" .int (·.lowRiskTests) (fun s v => { s with lowRiskTests := v })]

structure IntentReportDraft where
  testIntents : Option (Cells IntentDraft) := none
  summary : IntentSummary := {}

def intentReportFields : List (Decoder.Field IntentReportDraft) := [
  .of "testIntents" (.list {} intentDecoder) (·.testIntents)
    (fun d v => { d with testIntents := v }),
  .of "summary" intentSummaryDecoder (·.summary) (fun d v => { d with summary := v })]

def intentReportDecoder : Decoder IntentReportDraft := .record intentReportFields

/-- Reads an intent report. -/
def IntentReport.parse (text : Text) : Except DocumentError IntentReport :=
  match validate .intent intentRule text with
  | .error error => .error error
  | .ok _ =>
      match intentReportDecoder.run? {} text with
      | none => .error (.undecodable .intent)
      | some draft =>
          .ok {
            testIntents? := (Decoder.items? draft.testIntents).map (·.map IntentDraft.intent)
            summary := draft.summary }

/-! ## Taint reports -/

def locationRule : Rule :=
  .record [] [("file", .text), ("line", .count), ("column", .count)]

def vulnerabilityRule : Rule :=
  .record ["type", "severity"] [
    ("id", .text),
    ("type", .nonemptyText),
    ("severity", .text),
    ("source", locationRule),
    ("sink", locationRule),
    ("dataFlow", .list true .text)]

def taintSummaryRule : Rule :=
  .record [] [
    ("totalVulnerabilities", .count),
    ("highSeverity", .count),
    ("mediumSeverity", .count),
    ("lowSeverity", .count)]

def taintRule : Rule :=
  .record ["vulnerabilities"] [
    ("vulnerabilities", .list false vulnerabilityRule),
    ("summary", taintSummaryRule)]

/-- A vulnerability while it is read. -/
structure VulnerabilityDraft where
  id : Text := []
  type : Text := []
  severity : Text := []
  source : Location := {}
  sink : Location := {}
  dataFlow : Option (Cells Text) := none

def VulnerabilityDraft.vulnerability (draft : VulnerabilityDraft) : Vulnerability where
  id := draft.id
  type := draft.type
  severity := draft.severity
  source := draft.source
  sink := draft.sink
  dataFlow := Decoder.itemsOf draft.dataFlow

def locationDecoder : Decoder Location := .plainRecord [
  .of "file" .text (·.file) (fun l v => { l with file := v }),
  .of "line" .int (·.line) (fun l v => { l with line := v }),
  .of "column" .int (·.column) (fun l v => { l with column := v })]

def vulnerabilityDecoder : Decoder VulnerabilityDraft := .record [
  .of "id" .text (·.id) (fun d v => { d with id := v }),
  .of "type" .text (·.type) (fun d v => { d with type := v }),
  .of "severity" .text (·.severity) (fun d v => { d with severity := v }),
  .of "source" locationDecoder (·.source) (fun d v => { d with source := v }),
  .of "sink" locationDecoder (·.sink) (fun d v => { d with sink := v }),
  .of "dataFlow" .texts (·.dataFlow) (fun d v => { d with dataFlow := v })]

def taintSummaryDecoder : Decoder TaintSummary := .record [
  .of "totalVulnerabilities" .int (·.totalVulnerabilities)
    (fun s v => { s with totalVulnerabilities := v }),
  .of "highSeverity" .int (·.highSeverity) (fun s v => { s with highSeverity := v }),
  .of "mediumSeverity" .int (·.mediumSeverity) (fun s v => { s with mediumSeverity := v }),
  .of "lowSeverity" .int (·.lowSeverity) (fun s v => { s with lowSeverity := v })]

structure TaintReportDraft where
  vulnerabilities : Option (Cells VulnerabilityDraft) := none
  summary : TaintSummary := {}

def taintReportFields : List (Decoder.Field TaintReportDraft) := [
  .of "vulnerabilities" (.list {} vulnerabilityDecoder) (·.vulnerabilities)
    (fun d v => { d with vulnerabilities := v }),
  .of "summary" taintSummaryDecoder (·.summary) (fun d v => { d with summary := v })]

def taintReportDecoder : Decoder TaintReportDraft := .plainRecord taintReportFields

/-- Reads a taint report. -/
def TaintReport.parse (text : Text) : Except DocumentError TaintReport :=
  match validate .taint taintRule text with
  | .error error => .error error
  | .ok _ =>
      match taintReportDecoder.run? {} text with
      | none => .error (.undecodable .taint)
      | some draft =>
          .ok {
            vulnerabilities? :=
              (Decoder.items? draft.vulnerabilities).map (·.map VulnerabilityDraft.vulnerability)
            summary := draft.summary }

/-! ## Files -/

/-- Why a file gives no report. -/
inductive DocumentLoadError where
  | unreadable (kind : DocumentKind) (error : Files.Error)
  | invalid (path : Text) (error : DocumentError)
  deriving DecidableEq, Repr

def DocumentLoadError.message : DocumentLoadError → Text
  | unreadable kind error => "reading " ++ kind.name ++ " document: " ++ error.message
  | invalid path error => path ++ ": " ++ error.message

/-- The report in the file at a path. -/
def loadDocument {m : Type → Type} [Monad m] [Files m] {α : Type} (kind : DocumentKind)
    (parse : Text → Except DocumentError α) (path : Text) :
    m (Except DocumentLoadError α) := do
  match ← Files.read path with
  | .error error => return .error (.unreadable kind error)
  | .ok content =>
      match parse content with
      | .error error => return .error (.invalid path error)
      | .ok report => return .ok report

def IntentReport.load {m : Type → Type} [Monad m] [Files m] (path : Text) :
    m (Except DocumentLoadError IntentReport) :=
  loadDocument .intent IntentReport.parse path

def TaintReport.load {m : Type → Type} [Monad m] [Files m] (path : Text) :
    m (Except DocumentLoadError TaintReport) :=
  loadDocument .taint TaintReport.parse path

end Shortfall.Gap
