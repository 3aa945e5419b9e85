import Shortfall.Files
import Shortfall.Path
import Shortfall.Taint.Transfer
import Shortfall.Yaml.Record

/-!
# Statement programs

A straight-line sequence of statements extracted from one test, written as a YAML document.
-/

namespace Shortfall.Taint

structure Program where
  name : Text := []
  statements : List Statement := []
  deriving DecidableEq, Repr

namespace Program

/-- A statement as a document gives it, before its kind is checked. -/
structure Draft where
  kind : Text := []
  target : Text := []
  expression : Text := []
  method : Text := []
  args : Option (List Text) := none
  negative : Bool := false
  source : Text := []
  sink : Text := []
  line : Int := 0

def Draft.statement (d : Draft) : Statement where
  kind := .ofName d.kind
  target := d.target
  expression := d.expression
  method := d.method
  args := d.args.getD []
  negative := d.negative
  source := d.source
  sink := d.sink
  line := d.line

open Yaml.Read in
def draftFields : List (Yaml.Read.Field Draft) := [
  .of "kind" (textOf "taint.StatementKind") (·.kind) (fun d v => { d with kind := v }),
  .of "target" text (·.target) (fun d v => { d with target := v }),
  .of "expression" text (·.expression) (fun d v => { d with expression := v }),
  .of "method" text (·.method) (fun d v => { d with method := v }),
  .of "args" texts (·.args) (fun d v => { d with args := v }),
  .of "negative" bool (·.negative) (fun d v => { d with negative := v }),
  .of "source" text (·.source) (fun d v => { d with source := v }),
  .of "sink" text (·.sink) (fun d v => { d with sink := v }),
  .of "line" int (·.line) (fun d v => { d with line := v })]

/-- A program as a document gives it. -/
structure Outline where
  name : Text := []
  statements : Option (List Draft) := none

open Yaml.Read in
def reader (fuel : Nat) : Reader Outline :=
  record "taint.Program" [
    .of "name" text (·.name) (fun o v => { o with name := v }),
    .of "statements"
      (list "[]taint.Statement" (record "taint.Statement" draftFields fuel) {})
      (·.statements) (fun o v => { o with statements := v })] fuel

/-- Why a document is no program. -/
inductive Error where
  | malformed (fault : Yaml.Fault)
  | missingKind (index : Nat)
  deriving DecidableEq, Repr

def Error.message : Error → Text
  | malformed fault => "parsing statement program: " ++ fault.message
  | missingKind index => "statement " ++ Text.ofNat index ++ ": missing kind"

/-- Reads a program. Every statement must have a kind. -/
def parse (text : Text) : Except Error Program :=
  match Yaml.read reader {} text with
  | .error fault => .error (.malformed fault)
  | .ok outline =>
      let drafts := outline.statements.getD []
      match drafts.findIdx? fun d => d.kind.isEmpty with
      | some index => .error (.missingKind index)
      | none => .ok { name := outline.name, statements := drafts.map Draft.statement }

/-- Why a file gives no program. -/
inductive LoadError where
  | unreadable (error : Files.Error)
  | invalid (path : Text) (error : Error)
  deriving DecidableEq, Repr

def LoadError.message : LoadError → Text
  | unreadable error => "reading statement program: " ++ error.message
  | invalid path error => path ++ ": " ++ error.message

/-- The program in a file. One without a name is named after the file. -/
def ofFile (path content : Text) : Except LoadError Program :=
  match parse content with
  | .error error => .error (.invalid path error)
  | .ok program =>
      .ok (if program.name.isEmpty then { program with name := Path.stem path } else program)

def load {m : Type → Type} [Monad m] [Files m] (path : Text) : m (Except LoadError Program) := do
  match ← Files.read path with
  | .error error => return .error (.unreadable error)
  | .ok content => return ofFile path content

end Program

end Shortfall.Taint
