import Shortfall.Audit
import Shortfall.Binary64
import Shortfall.Binary64.Numeral
import Shortfall.Calendar
import Shortfall.Catalog
import Shortfall.Catalog.Builtin
import Shortfall.Catalog.Disguise
import Shortfall.Catalog.Pack
import Shortfall.Catalog.PackSwitch
import Shortfall.Catalog.Phrase
import Shortfall.Command
import Shortfall.Command.Analyze
import Shortfall.Command.Error
import Shortfall.Command.History
import Shortfall.Command.Line
import Shortfall.Command.Option
import Shortfall.Command.Packs
import Shortfall.Command.Session
import Shortfall.Command.Taint
import Shortfall.Distinct
import Shortfall.Dotenv
import Shortfall.Files
import Shortfall.Files.Disk
import Shortfall.Files.Rotation
import Shortfall.Files.Tree
import Shortfall.Gap.Classification
import Shortfall.Gap.Detector
import Shortfall.Gap.Document
import Shortfall.Gap.Finding
import Shortfall.Gap.Input
import Shortfall.Gap.Matching
import Shortfall.Gap.Registry
import Shortfall.Gap.Result
import Shortfall.Gap.Risk
import Shortfall.Gap.Strategy
import Shortfall.Json
import Shortfall.Json.Decoding
import Shortfall.Json.Parser
import Shortfall.Json.Passing
import Shortfall.Json.Printer
import Shortfall.Json.Quantity
import Shortfall.Json.Quoted
import Shortfall.Json.Schema
import Shortfall.Log.Encoding
import Shortfall.Log.Entry
import Shortfall.Main
import Shortfall.Metrics
import Shortfall.Metrics.Exposition
import Shortfall.NameMap
import Shortfall.Path
import Shortfall.Proofs.Audit
import Shortfall.Proofs.Catalog.Disguise
import Shortfall.Proofs.Catalog.Lookup
import Shortfall.Proofs.Catalog.Merge
import Shortfall.Proofs.Catalog.NormalForm
import Shortfall.Proofs.Catalog.PackPaths
import Shortfall.Proofs.Catalog.PackSwitch
import Shortfall.Proofs.Catalog.Packs
import Shortfall.Proofs.Catalog.Phrase
import Shortfall.Proofs.Catalog.Unmasking
import Shortfall.Proofs.Collections
import Shortfall.Proofs.Counting
import Shortfall.Proofs.Files
import Shortfall.Proofs.Files.Directory
import Shortfall.Proofs.Files.Requests
import Shortfall.Proofs.Files.Rotation
import Shortfall.Proofs.Gap.Additional
import Shortfall.Proofs.Gap.Configuration
import Shortfall.Proofs.Gap.Description
import Shortfall.Proofs.Gap.Documents
import Shortfall.Proofs.Gap.Escalation
import Shortfall.Proofs.Gap.HiddenRisk
import Shortfall.Proofs.Gap.Merge
import Shortfall.Proofs.Gap.Origins
import Shortfall.Proofs.Gap.Sessions
import Shortfall.Proofs.Gap.Strategies
import Shortfall.Proofs.Gap.Subsumption
import Shortfall.Proofs.Gap.Violations
import Shortfall.Proofs.Json.Quoted
import Shortfall.Proofs.Json.RoundTrip
import Shortfall.Proofs.Path
import Shortfall.Proofs.Path.Cleaning
import Shortfall.Proofs.Readings
import Shortfall.Proofs.Redaction.Addresses
import Shortfall.Proofs.Redaction.Completeness
import Shortfall.Proofs.Redaction.Matching
import Shortfall.Proofs.Redaction.Printed
import Shortfall.Proofs.Redaction.Rules
import Shortfall.Proofs.Redaction.Tokens
import Shortfall.Proofs.Report.Summary
import Shortfall.Proofs.Report.Violations
import Shortfall.Proofs.Taint.DefUse
import Shortfall.Proofs.Taint.FlatScan
import Shortfall.Proofs.Taint.Frame
import Shortfall.Proofs.Taint.LevelOrder
import Shortfall.Proofs.Taint.Literals
import Shortfall.Proofs.Taint.Monotone
import Shortfall.Proofs.Taint.Parentheses
import Shortfall.Proofs.Taint.Reachable
import Shortfall.Proofs.Taint.ReadSet
import Shortfall.Proofs.Taint.Resolution
import Shortfall.Proofs.Taint.SinkFlow
import Shortfall.Proofs.Taint.SourceFlow
import Shortfall.Proofs.Taint.Step
import Shortfall.Proofs.Taint.Unmodelled
import Shortfall.Proofs.Taint.Violations
import Shortfall.Proofs.Text.Delimiters
import Shortfall.Proofs.Text.LetterCase
import Shortfall.Proofs.Text.Occurrences
import Shortfall.Proofs.Text.SmallWords
import Shortfall.Proofs.Text.Words
import Shortfall.Redaction
import Shortfall.Redaction.Pattern
import Shortfall.Report
import Shortfall.Report.Gaps
import Shortfall.Report.Listing
import Shortfall.Report.Runs
import Shortfall.Report.Violations
import Shortfall.Settings
import Shortfall.Settings.Conversion
import Shortfall.Settings.File
import Shortfall.Settings.Value
import Shortfall.Taint.Expression
import Shortfall.Taint.Level
import Shortfall.Taint.Literal
import Shortfall.Taint.Program
import Shortfall.Taint.Provenance
import Shortfall.Taint.State
import Shortfall.Taint.Statement
import Shortfall.Taint.Transfer
import Shortfall.Taint.Violation
import Shortfall.Text
import Shortfall.Text.Base64
import Shortfall.Text.Blank
import Shortfall.Text.Case
import Shortfall.Text.CaseTable
import Shortfall.Text.Csv
import Shortfall.Text.Numeral
import Shortfall.Text.Printable
import Shortfall.Text.Quoted
import Shortfall.Text.Utf8
import Shortfall.Toml
import Shortfall.Toml.Expression
import Shortfall.Toml.Fault
import Shortfall.Toml.Moment
import Shortfall.Toml.Number
import Shortfall.Toml.Outline
import Shortfall.Toml.Quoted
import Shortfall.Word
import Shortfall.Yaml.Datum
import Shortfall.Yaml.Fault
import Shortfall.Yaml.Node
import Shortfall.Yaml.Node.OfTokens
import Shortfall.Yaml.Reading
import Shortfall.Yaml.Record
import Shortfall.Yaml.Scalar
import Shortfall.Yaml.Source
import Shortfall.Yaml.Token
import Shortfall.Yaml.Token.Comment
import Shortfall.Yaml.Token.Queue
import Shortfall.Yaml.Token.Text
