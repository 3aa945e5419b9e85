import Shortfall.Gap.Registry
import Shortfall.Log.Entry

/-!
# The detector

A detector runs a primary strategy and any number of additional ones on a request and merges what
they find. A failure of the primary strategy is the failure of the analysis; that of an additional
one is logged, and its gaps are left out.

Additional strategies may run side by side. Each of them writes only its own slot, and the slots
are merged in the order of registration, so the order in which strategies are run and complete
does not show in the result. `analyzeInOrder` takes that order as an argument.
-/

namespace Shortfall.Gap

/-- What a detector is set to do. -/
structure Config where
  /-- The key of the primary strategy. -/
  strategy : Text := Strategy.defaultKey
  additional : List Text := []
  /-- Whether additional strategies run side by side. -/
  concurrent : Bool := true
  /-- How many of them run at a time. -/
  maxConcurrency : Int := 4
  deriving DecidableEq, Repr

structure Detector where
  config : Config
  primary : Strategy
  additional : List Strategy
  catalog : Catalog
  registry : Registry

/-- Why an analysis gives no result. -/
inductive AnalysisError where
  | invalid (error : InputError)
  | failed (strategy : Text) (failure : Failure)
  deriving DecidableEq, Repr

namespace AnalysisError

def message : AnalysisError → Text
  | invalid error => error.message
  | failed strategy failure => "gap analysis failed: " ++ strategy ++ ": " ++ failure.message

/-- The missing part of the input that the error comes down to, if it does. -/
def inputError? : AnalysisError → Option InputError
  | invalid error => some error
  | failed _ (.invalid error) => some error
  | failed _ _ => none

end AnalysisError

/-- What an observer of a detector is told. -/
inductive Observation where
  /-- A strategy was run. -/
  | strategy (name : Text) (succeeded : Bool)
  /-- An analysis ended, with the summary of its result. -/
  | analysis (outcome : Except AnalysisError Summary)

/-- An outcome with what was logged and observed on the way. -/
structure Traced (α : Type) where
  value : α
  entries : List Log.Entry := []
  observations : List Observation := []

/-! ## Running one strategy -/

/-- A gap marked with the name of its strategy, unless it carries a mark already. -/
def SecurityGap.markedBy (gap : SecurityGap) (name : Text) : SecurityGap :=
  if gap.detectedBy.isEmpty then { gap with detectedBy := name } else gap

namespace Strategy

/-- The gaps that a strategy finds, marked with its name. -/
def gaps (strategy : Strategy) (request : Request) : Except Failure (List SecurityGap) :=
  match strategy.analyze request with
  | .found result => .ok (result.gaps.map (·.markedBy strategy.name))
  | .nothing => .ok []
  | .failed failure => .error failure

/-- Runs a strategy that has accepted the request. -/
def invoke (strategy : Strategy) (request : Request) :
    Traced (Except Failure (List SecurityGap)) :=
  let outcome := strategy.gaps request
  let (succeeded, count, error) : Bool × Nat × List (Text × Log.Value) :=
    match outcome with
    | .ok gaps => (true, gaps.length, [])
    | .error failure => (false, 0, [("error", .text failure.message)])
  { value := outcome
    entries := [{
      severity := .debug
      message := "gap strategy finished"
      fields := ("strategy", .text strategy.name) :: ("gaps", .number count) :: error }]
    observations := [.strategy strategy.name succeeded] }

/-- Runs a strategy as the primary one. -/
def runAsPrimary (strategy : Strategy) (request : Request) :
    Traced (Except Failure (List SecurityGap)) :=
  if strategy.accepts request then
    let run := strategy.invoke request
    match run.value with
    | .ok _ => run
    | .error failure =>
        { run with
          entries := run.entries ++ [{
            severity := .error
            message := "primary gap strategy failed"
            fields := [("strategy", .text strategy.name), ("error", .text failure.message)] }] }
  else
    { value := .error .rejected
      entries := [{
        severity := .error
        message := "primary gap strategy rejected input"
        fields := [("strategy", .text strategy.name)] }] }

/-- Runs a strategy as an additional one, which contributes nothing when it fails. -/
def runAsAdditional (strategy : Strategy) (request : Request) : Traced (List SecurityGap) :=
  if strategy.accepts request then
    let run := strategy.invoke request
    match run.value with
    | .ok gaps => { value := gaps, entries := run.entries, observations := run.observations }
    | .error failure =>
        { value := []
          entries := run.entries ++ [{
            severity := .warn
            message := "additional gap strategy failed; skipping"
            fields := [("strategy", .text strategy.name), ("error", .text failure.message)] }]
          observations := run.observations }
  else
    { value := []
      entries := [{
        severity := .warn
        message := "additional gap strategy rejected input; skipping"
        fields := [("strategy", .text strategy.name)] }] }

end Strategy

/-! ## Analysis -/

/-- The slots of the additional strategies while they run. -/
abbrev Slots := Traced (List (List SecurityGap))

/-- Runs the strategy with the given index and fills its slot. -/
def fillSlot (strategies : List Strategy) (request : Request) (slots : Slots) (index : Nat) :
    Slots :=
  match strategies[index]? with
  | none => slots
  | some strategy =>
      let run := strategy.runAsAdditional request
      { value := slots.value.set index run.value
        entries := slots.entries ++ run.entries
        observations := slots.observations ++ run.observations }

/-- Runs strategies in an order given by their indices. -/
def fillSlots (strategies : List Strategy) (request : Request) (order : List Nat) : Slots :=
  order.foldl (fillSlot strategies request) { value := strategies.map fun _ => [] }

namespace Detector

/-- Analyses a request. `fill` runs the additional strategies and gives what they leave in their
slots; it is asked only when the primary strategy has succeeded. -/
def analyzeWith (detector : Detector) (fill : List Strategy → Request → Slots)
    (request : Request) : Traced (Except AnalysisError Result) :=
  match request.input with
  | .error error =>
      { value := .error (.invalid error), observations := [.analysis (.error (.invalid error))] }
  | .ok _ =>
      let first := detector.primary.runAsPrimary request
      match first.value with
      | .error failure =>
          let error := .failed detector.primary.name failure
          { value := .error error
            entries := first.entries
            observations := first.observations ++ [.analysis (.error error)] }
      | .ok gaps =>
          let slots := fill detector.additional request
          let result := Result.ofGaps (deduplicate (gaps ++ slots.value.flatten))
          { value := .ok result
            entries := first.entries ++ slots.entries ++ [{
              severity := .debug
              message := "gap analysis complete"
              fields := [("strategy", .text detector.primary.name),
                ("additional", .number detector.additional.length),
                ("gaps", .number result.summary.total)] }]
            observations := first.observations ++ slots.observations
              ++ [.analysis (.ok result.summary)] }

/-- Analyses a request, running the additional strategies in the given order. -/
def analyzeInOrder (detector : Detector) (order : List Nat) (request : Request) :
    Traced (Except AnalysisError Result) :=
  detector.analyzeWith (fun strategies request => fillSlots strategies request order) request

/-- Analyses a request, running the additional strategies one after the other. -/
def analyze (detector : Detector) (request : Request) : Traced (Except AnalysisError Result) :=
  detector.analyzeInOrder (List.range detector.additional.length) request

/-! ## Configuration -/

/-- The strategy of a key, the built-in one included. -/
def resolveIn (catalog : Catalog) (registry : Registry) (key : Text) :
    Except ResolveError Strategy :=
  if key = Strategy.defaultKey then .ok (Strategy.default catalog)
  else registry.resolve key catalog

def resolve (detector : Detector) (key : Text) : Except ResolveError Strategy :=
  resolveIn detector.catalog detector.registry key

/-- Makes a strategy the primary one. -/
def setStrategy (detector : Detector) : Option Strategy → Detector
  | none => detector
  | some strategy =>
      { detector with
        primary := strategy
        config := { detector.config with strategy := strategy.name } }

/-- Makes the strategy of a key the primary one. -/
def useStrategy (detector : Detector) (key : Text) : Except ResolveError Detector :=
  match detector.resolve key with
  | .error error => .error error
  | .ok strategy => .ok (detector.setStrategy (some strategy))

/-- Adds a strategy behind the others. -/
def addStrategy (detector : Detector) : Option Strategy → Detector
  | none => detector
  | some strategy =>
      { detector with
        additional := detector.additional ++ [strategy]
        config := { detector.config with
          additional := detector.config.additional ++ [strategy.name] } }

/-- Adds the strategies of the given keys. -/
def addAll (detector : Detector) : List Text → Except ResolveError Detector
  | [] => .ok detector
  | key :: rest =>
      match detector.resolve key with
      | .error error => .error error
      | .ok strategy => (detector.addStrategy (some strategy)).addAll rest

/-- Registers a builder for later use. -/
def register (detector : Detector) (key : Text) (builder? : Option Builder) :
    Except RegisterError Detector :=
  match detector.registry.register key builder? with
  | .error error => .error error
  | .ok registry => .ok { detector with registry }

/-- A detector that does what the configuration says. Without a strategy it uses the default one,
and without a positive limit it runs four strategies at a time. -/
def ofConfig (config : Config) (catalog : Catalog) (registry : Registry) :
    Except ResolveError Detector :=
  let key := if config.strategy.isEmpty then Strategy.defaultKey else config.strategy
  match resolveIn catalog registry key with
  | .error error => .error error
  | .ok primary =>
      let limit := if config.maxConcurrency ≤ 0 then 4 else config.maxConcurrency
      addAll {
        config := { config with strategy := key, additional := [], maxConcurrency := limit }
        primary
        additional := []
        catalog
        registry } config.additional

end Detector

end Shortfall.Gap
