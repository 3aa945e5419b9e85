import Mathlib.Algebra.Ring.Int.Defs
import Shortfall.Command
import Shortfall.Proofs.Files
import Shortfall.Proofs.Gap.Merge

/-!
# Summaries and thresholds

A strategy may find risks that are not on the scale. A summary counts each gap at the point of the
scale nearest to its risk, while the threshold of a run is compared with the risk as it is. The
nearest point is at or above a threshold exactly if the risk is, unless the threshold is the lowest
point, which a risk below the scale does not reach and is counted at (`onScale_mem_scaleFrom`). So
the counts of some points add up to the gaps that are counted there (`sum_count_ofGaps`), and from
this follow the total, with all points, and the number of gaps at or above a threshold, with the
points from there on.

The command prints a summary and compares gaps with the threshold. What it comes to is followed
through its actions on files as a property that each of them gives (`Gives`).

## Main results

* `Detector.isTallied_of_analyzeWith`: the result of a detector is summed up by its gaps.
* `isDecided_analyzeOutcome`: how a run of the command is decided by its analysis.
* `threshold_agrees_with_summary`: a run fails for its gaps as the printed summary says.
-/

namespace Shortfall.Gap

/-! ## Counting by risk -/

namespace Risk

private theorem eq_iff_rank_eq {risk other : Risk} : risk = other ↔ risk.rank = other.rank := by
  cases risk
  cases other
  rw [mk.injEq]

/-- The point of the scale that a risk counts as, which is the nearest one. -/
def onScale (risk : Risk) : Risk := ⟨max low.rank (min risk.rank critical.rank)⟩

private theorem onScale_mem_scale (risk : Risk) : risk.onScale ∈ scale := by
  simp only [scale, List.mem_cons, List.not_mem_nil, or_false, eq_iff_rank_eq, onScale, low,
    medium, high, critical]
  omega

/-- The points of the scale at or above a risk. -/
def scaleFrom (threshold : Risk) : List Risk := scale.filter (threshold.rank ≤ ·.rank)

/-- The thresholds that a risk below the scale, which counts as low, cannot reach. -/
def aboveLow : List Risk := [medium, high, critical]

/-- Above low, a risk reaches a threshold as it is if it does as what it counts as. -/
theorem onScale_mem_scaleFrom {threshold : Risk} (h : threshold ∈ aboveLow) (risk : Risk) :
    risk.onScale ∈ threshold.scaleFrom ↔ threshold.rank ≤ risk.rank := by
  have hbounds : low.rank < threshold.rank ∧ threshold.rank ≤ critical.rank := by
    revert threshold
    decide
  rw [scaleFrom, List.mem_filter, decide_eq_true_eq, and_iff_right (onScale_mem_scale risk)]
  simp only [onScale]
  omega

end Risk

namespace Summary

/-- The number of gaps at the points of the scale at or above a risk. -/
def countFrom (summary : Summary) (threshold : Risk) : Int :=
  (threshold.scaleFrom.map summary.count).sum

variable (gaps : List SecurityGap)

theorem count_ofGaps {risk : Risk} (h : risk ∈ Risk.scale) :
    (ofGaps gaps).count risk = gaps.countP (·.risk.onScale = risk) := by
  have hcongr : ∀ {p : SecurityGap → Prop} [DecidablePred p],
      (∀ gap : SecurityGap, p gap ↔ gap.risk.onScale = risk) →
        (gaps.countP (p ·) : Int) = gaps.countP (·.risk.onScale = risk) := by
    intro p _ hp
    simp only [hp]
  simp only [Risk.scale, List.mem_cons, List.not_mem_nil, or_false] at h
  rcases h with rfl | rfl | rfl | rfl
  all_goals
    apply hcongr
    intro gap
    simp only [Risk.eq_iff_rank_eq, Risk.onScale, Risk.low, Risk.medium, Risk.high, Risk.critical]
    omega

private theorem countP_onScale_mem_cons {risk : Risk} {others : List Risk} (h : risk ∉ others) :
    gaps.countP (·.risk.onScale ∈ risk :: others) =
      gaps.countP (·.risk.onScale = risk) + gaps.countP (·.risk.onScale ∈ others) := by
  induction gaps with
  | nil => rfl
  | cons gap rest ih =>
      -- No gap is counted twice on the right, as `risk` is none of the others.
      simp only [List.countP_cons, List.mem_cons]
      grind

/-- The counts of some points of the scale add up to the gaps that count as one of them. -/
theorem sum_count_ofGaps {points : List Risk} (hnodup : points.Nodup)
    (hscale : ∀ risk ∈ points, risk ∈ Risk.scale) :
    (points.map (ofGaps gaps).count).sum = gaps.countP (·.risk.onScale ∈ points) := by
  induction points with
  | nil => simp
  | cons risk others ih =>
      obtain ⟨hnew, hothers⟩ := List.nodup_cons.mp hnodup
      obtain ⟨hrisk, hscale'⟩ := List.forall_mem_cons.mp hscale
      rw [List.map_cons, List.sum_cons, count_ofGaps gaps hrisk, ih hothers hscale',
        countP_onScale_mem_cons gaps hnew, Int.natCast_add]

theorem total_ofGaps : (ofGaps gaps).total = gaps.length := by
  have hall : gaps.countP (·.risk.onScale ∈ Risk.scale) = gaps.length := by
    rw [List.countP_eq_length]
    intro gap _
    exact decide_eq_true gap.risk.onScale_mem_scale
  have hsum := sum_count_ofGaps gaps (by decide : Risk.scale.Nodup) fun _ h => h
  rw [hall] at hsum
  have hscale : (Risk.scale.map (ofGaps gaps).count).sum = (ofGaps gaps).low +
      ((ofGaps gaps).medium + ((ofGaps gaps).high + ((ofGaps gaps).critical + 0))) := rfl
  have htotal : (ofGaps gaps).total = (ofGaps gaps).critical + (ofGaps gaps).high +
      (ofGaps gaps).medium + (ofGaps gaps).low := rfl
  omega

theorem countFrom_ofGaps {threshold : Risk} (h : threshold ∈ Risk.aboveLow) :
    (ofGaps gaps).countFrom threshold = gaps.countP (threshold.rank ≤ ·.risk.rank) := by
  have hnodup : threshold.scaleFrom.Nodup := (by decide : Risk.scale.Nodup).filter _
  rw [countFrom, sum_count_ofGaps gaps hnodup fun _ hmem => List.mem_of_mem_filter hmem]
  simp only [Risk.onScale_mem_scaleFrom h]

example : (ofGaps [{ risk := ⟨7⟩ }, { risk := ⟨-2⟩ }]).countFrom .critical = 1 := by decide

end Summary

/-- The summary of a result counts its gaps: all of them, and those at or above a point of the scale
other than the lowest. -/
structure Result.IsTallied (result : Result) : Prop where
  total_eq_length : result.summary.total = result.gaps.length
  total_eq_sum : result.summary.total = result.summary.critical + result.summary.high +
    result.summary.medium + result.summary.low
  countFrom_eq : ∀ threshold ∈ Risk.aboveLow,
    result.summary.countFrom threshold = result.gaps.countP (threshold.rank ≤ ·.risk.rank)

theorem isTallied_ofGaps (gaps : List SecurityGap) : (Result.ofGaps gaps).IsTallied where
  total_eq_length := Summary.total_ofGaps gaps
  total_eq_sum := rfl
  countFrom_eq := fun _ h => Summary.countFrom_ofGaps gaps h

/-- Whatever its strategies find, and however the additional ones are run, a detector gives a result
that is tallied. -/
theorem Detector.isTallied_of_analyzeWith {detector : Detector} {request : Request}
    {fill : List Strategy → Request → Slots} {result : Result}
    (h : (detector.analyzeWith fill request).value = .ok result) : result.IsTallied := by
  by_cases hfails : detector.Fails request
  · obtain ⟨outcome, ⟨error, herror⟩, houtcome⟩ := analyzeWith_of_fails hfails
    rw [houtcome detector rfl, herror] at h
    cases h
  · rw [(analyzeWith_of_succeeds hfails fill).1, Except.ok.injEq] at h
    rw [← h]
    exact isTallied_ofGaps _

private theorem Detector.isTallied_of_analyze {detector : Detector} {request : Request}
    {result : Result} (h : (detector.analyze request).value = .ok result) : result.IsTallied := by
  rw [analyze, analyzeInOrder] at h
  exact isTallied_of_analyzeWith h

end Shortfall.Gap

/-! ## The printed summary -/

namespace Shortfall.Report

open Gap

/-- The output shows the summary, as the head of a report or at the end of a document. -/
def ShowsSummary (json : Bool) (summary : Summary) (output : Text) : Prop :=
  if json then
    (Json.quoteText "summary" ++ ": " ++ Json.indented 1 (summaryJson summary)
      ++ "\n\x7d\n" : Text) <:+ output
  else lines (banner "Security Gap Analysis" ++ [countLine summary]) <+: output

private theorem showsSummary_gapReport (result : Result) :
    ShowsSummary false result.summary (gapReport result) := by
  have hhead : ∀ more, lines (banner "Security Gap Analysis" ++ [countLine result.summary]) <+:
      lines (banner "Security Gap Analysis" ++ [countLine result.summary] ++ more) := by
    intro more
    simp only [lines, List.flatMap_append]
    exact List.prefix_append _ _
  show _ <+: gapReport result
  rw [gapReport]
  split
  · exact hhead _
  · rw [List.append_assoc]
    exact hhead _

private theorem showsSummary_gapDocument (result : Result) :
    ShowsSummary true result.summary (gapDocument result) := by
  have hend : Json.newLine 0 ++ (("\x7d" : Text) ++ [0x0A]) = ("\n\x7d\n" : Text) := by decide
  show _ <:+ gapDocument result
  refine ⟨"\x7b" ++ Json.newLine 1 ++ Json.quoteText "gaps" ++ ": "
    ++ Json.indented 1 (.array (result.gaps.map gapJson)) ++ "," ++ Json.newLine 1, ?_⟩
  rw [gapDocument, Json.indented, ← hend]
  simp only [lines, Json.indentedMembers, Text.joinWith, List.flatMap_cons, List.flatMap_nil,
    List.append_nil, List.append_assoc, Nat.zero_add]

end Shortfall.Report

/-! ## The threshold of a run -/

namespace Shortfall.Command

open Gap

private theorem thresholdError?_of_isTallied {result : Result} (h : result.IsTallied)
    {threshold : Risk} (hthreshold : threshold ∈ Risk.aboveLow) :
    thresholdError? (some threshold) result =
      if 0 < result.summary.countFrom threshold then some (.gapsFound threshold) else none := by
  have hany : (result.gaps.any fun gap => threshold.rank ≤ gap.risk.rank) = true ↔
      0 < result.summary.countFrom threshold := by
    rw [h.countFrom_eq threshold hthreshold, Int.natCast_pos, List.countP_pos_iff, List.any_eq_true]
  rw [thresholdError?]
  simp only [hany]

/-- The outcome of an analysis is the result of a detector, or an error that tells of no gaps. -/
inductive IsGenuine : Except Error Result → Prop where
  | found {detector : Detector} {request : Request} {result : Result}
      (h : (detector.analyze request).value = .ok result) : IsGenuine (.ok result)
  | failed {error : Error} (h : ∀ threshold, error ≠ .gapsFound threshold) :
      IsGenuine (.error error)

private theorem isGenuine_detect (config : Config) (catalog : Catalog) (intent : IntentReport)
    (taint : TaintReport) : IsGenuine (detect config catalog intent taint).value := by
  rw [detect]
  cases Detector.ofConfig config catalog .standard with
  | error error => exact .failed nofun
  | ok detector =>
      cases hvalue : (detector.analyze { intent? := some intent, taint? := some taint }).value with
      | error error =>
          simp only [hvalue]
          exact .failed nofun
      | ok result =>
          simp only [hvalue]
          exact .found hvalue

/-- Whatever files there are, the action comes to a value with the property. -/
def Gives {α : Type} (action : StateM FileTree α) (property : α → Prop) : Prop :=
  ∀ tree, property (StateT.run action tree).1

section Gives

variable {α β : Type} {action : StateM FileTree α} {next : α → StateM FileTree β}

theorem gives_pure {property : α → Prop} {a : α} (h : property a) :
    Gives (pure a : StateM FileTree α) property :=
  fun _ => h

theorem gives_bind {goal : β → Prop} (hnext : ∀ a, Gives (next a) goal) :
    Gives (action >>= next) goal :=
  fun _ => hnext _ _

end Gives

private theorem gives_analyzeReports (config : Config) (catalog : Catalog)
    (request : AnalyzeRequest) (intent : IntentReport) (taint : TaintReport) :
    Gives (analyzeReports config catalog request intent taint)
      fun analysis => IsGenuine analysis.outcome := by
  apply gives_bind
  intro all
  cases all.error? with
  | some error => exact gives_pure (.failed nofun)
  | none => exact gives_pure (isGenuine_detect _ _ _ _)

private theorem gives_analyze (config : Config) (catalog : Catalog) (request : AnalyzeRequest) :
    Gives (analyze config catalog request) fun analysis => IsGenuine analysis.outcome := by
  apply gives_bind
  intro loaded
  cases loaded with
  | error error => exact gives_pure (.failed nofun)
  | ok intent =>
      apply gives_bind
      intro loaded
      cases loaded with
      | error error => exact gives_pure (.failed nofun)
      | ok taint => exact gives_analyzeReports config catalog request intent taint

private theorem gives_loadCatalog (settings : Settings) :
    Gives (loadCatalog settings)
      fun loaded => ∀ error, loaded = .error error → ∃ cause, error = .packs cause := by
  apply gives_bind
  rintro ⟨infos, loaded⟩
  cases loaded with
  | error cause =>
      apply gives_pure
      rintro _ ⟨⟩
      exact ⟨cause, rfl⟩
  | ok catalog =>
      apply gives_pure
      rintro _ ⟨⟩

/-! ## The command -/

/-- What is printed of a result. -/
def printed (options : Options) (result : Result) : Text :=
  if options.switch "json" then Report.gapDocument (Report.redactResult result)
  else Report.gapReport (Report.redactResult result)

/-- The result of the analysis that a run of the command makes, if it comes to one. -/
def analyzed? (settings : Settings) (options : Options) (tree : FileTree) : Option Result :=
  let request := AnalyzeRequest.ofOptions options
  if request.taint.isEmpty && request.programs.isEmpty then none
  else
    match StateT.run (loadCatalog settings : StateM FileTree _) tree with
    | (.error _, _) => none
    | (.ok packed, after) =>
        (StateT.run (analyze settings.analysis packed.catalog request : StateM FileTree Analysis)
          after).1.outcome.toOption

/-- What a run of the command comes to. -/
def analyzeOutcome (surroundings : Surroundings (StateM FileTree)) (settings : Settings)
    (options : Options) (tree : FileTree) : Outcome :=
  (StateT.run (runAnalyze surroundings settings options) tree).1

/-- How a run is decided by the result of its analysis: without one it stops and prints nothing, and
with one it prints it and compares it with the threshold. -/
inductive IsDecided (options : Options) (threshold? : Option Risk) :
    Option Result → Outcome → Prop where
  | stopped {error : Error} {entries : List Log.Entry}
      (h : ∀ threshold, error ≠ .gapsFound threshold) :
      IsDecided options threshold? none (.failed error entries)
  | reported {result : Result} {entries : List Log.Entry} (h : result.IsTallied) :
      IsDecided options threshold? (some result)
        { output := printed options result, entries, error? := thresholdError? threshold? result }

theorem isDecided_analyzeOutcome (surroundings : Surroundings (StateM FileTree))
    (settings : Settings) {options : Options} {threshold? : Option Risk}
    (h : failureThreshold? options = .ok threshold?) (tree : FileTree) :
    IsDecided options threshold? (analyzed? settings options tree)
      (analyzeOutcome surroundings settings options tree) := by
  rw [analyzeOutcome, runAnalyze, analyzed?]
  split
  · exact .stopped nofun
  rw [h]
  obtain ⟨loaded, after, hload⟩ : ∃ loaded after,
      StateT.run (loadCatalog settings : StateM FileTree _) tree = (loaded, after) :=
    ⟨_, _, rfl⟩
  have hcause := gives_loadCatalog settings tree
  rw [hload] at hcause ⊢
  rw [FileTree.run_bind_of_run hload]
  cases loaded with
  | error error =>
      obtain ⟨cause, rfl⟩ := hcause error rfl
      exact .stopped nofun
  | ok packed =>
      obtain ⟨analysis, later, hrun⟩ : ∃ analysis later, StateT.run (analyze settings.analysis
          packed.catalog (AnalyzeRequest.ofOptions options) : StateM FileTree Analysis) after =
            (analysis, later) :=
        ⟨_, _, rfl⟩
      have hgenuine := gives_analyze settings.analysis packed.catalog
        (AnalyzeRequest.ofOptions options) after
      rw [hrun] at hgenuine
      simp only [hrun]
      rw [FileTree.run_bind_of_run hrun]
      -- What is recorded of the run has no part in how it is decided.
      refine (gives_bind fun recorded => ?_ : Gives _ (IsDecided options threshold? _)) later
      cases houtcome : analysis.outcome with
      | error error =>
          rw [houtcome] at hgenuine
          cases hgenuine with
          | failed hother => exact gives_pure (.stopped hother)
      | ok result =>
          rw [houtcome] at hgenuine
          cases hgenuine with
          | found hresult => exact gives_pure (.reported (Detector.isTallied_of_analyze hresult))

private theorem showsSummary_printed (options : Options) (result : Result) :
    Report.ShowsSummary (options.switch "json") result.summary (printed options result) := by
  have hsummary : (Report.redactResult result).summary = result.summary := by
    rw [Report.redactResult]
  rw [printed, ← hsummary]
  by_cases hjson : options.switch "json" = true
  · rw [if_pos hjson, hjson]
    exact Report.showsSummary_gapDocument _
  · rw [if_neg hjson, Bool.eq_false_iff.mpr hjson]
    exact Report.showsSummary_gapReport _

/-- **Summary and threshold agree.** Whatever risks its strategies find, and however the additional
ones are run, the result of a detector is tallied. So is the result of the analysis that a run of
the command makes; with a threshold other than the lowest risk the run prints this result with its
summary, and fails for its gaps exactly if the summary counts one at or above the threshold. A run
that comes to no result prints nothing and fails with an error that tells of no gaps. -/
theorem threshold_agrees_with_summary (detector : Detector)
    (fill : List Strategy → Request → Slots) (request : Request) :
    (∀ result, (detector.analyzeWith fill request).value = .ok result → result.IsTallied) ∧
    ∀ (surroundings : Surroundings (StateM FileTree)) (settings : Settings) (options : Options)
      (tree : FileTree), ∀ threshold ∈ Risk.aboveLow,
      failureThreshold? options = .ok (some threshold) →
        (∀ result, analyzed? settings options tree = some result →
          result.IsTallied ∧
          (analyzeOutcome surroundings settings options tree).output = printed options result ∧
          Report.ShowsSummary (options.switch "json") result.summary (printed options result) ∧
          (analyzeOutcome surroundings settings options tree).error? =
            if 0 < result.summary.countFrom threshold then some (.gapsFound threshold)
            else none) ∧
        (analyzed? settings options tree = none →
          (analyzeOutcome surroundings settings options tree).output = [] ∧
          ∃ error, (analyzeOutcome surroundings settings options tree).error? = some error ∧
            ∀ risk, error ≠ .gapsFound risk) := by
  refine ⟨fun result hresult => Detector.isTallied_of_analyzeWith hresult, ?_⟩
  intro surroundings settings options tree threshold habove hthreshold
  have hdecided := isDecided_analyzeOutcome surroundings settings hthreshold tree
  generalize analyzed? settings options tree = result? at hdecided ⊢
  generalize analyzeOutcome surroundings settings options tree = outcome at hdecided ⊢
  cases hdecided with
  | stopped hother => exact ⟨nofun, fun _ => ⟨rfl, _, rfl, hother⟩⟩
  | reported htallied =>
      refine ⟨?_, nofun⟩
      rintro _ ⟨⟩
      exact ⟨htallied, rfl, showsSummary_printed options _,
        thresholdError?_of_isTallied htallied habove⟩

/-- A detector that finds risks on either side of the scale. -/
def beyondScale : Detector where
  config := {}
  primary := Detector.endingWith "wide" (.found (.ofGaps [
    { testName := "above", risk := ⟨7⟩ }, { testName := "below", risk := ⟨-2⟩ }]))
  additional := []
  catalog := ⟨[]⟩
  registry := ⟨∅⟩

/-- A suite of one test that asks for nothing, and a finding. -/
def uncovered : FileTree := .folder [
  ("intents", .file "\x7b\"testIntents\":[\x7b\"testName\":\"T\"\x7d]\x7d"),
  ("taint", .file "\x7b\"vulnerabilities\":[\x7b\"type\":\"XSS\",\"severity\":\"HIGH\"\x7d]\x7d")]

def failingOn (risk : Text) : Options :=
  [("intent", .text "intents"), ("taint", .text "taint"), ("fail-on", .text risk)]

private theorem analyzed_uncovered (risk : Text) : ∃ result,
    analyzed? { analysis := {} } (failingOn risk) uncovered = some result ∧
      result.summary = { total := 2, high := 1, medium := 1 } := by
  have hrequest : AnalyzeRequest.ofOptions (failingOn risk) =
      AnalyzeRequest.ofOptions (failingOn []) := rfl
  have hsummary : (analyzed? { analysis := {} } (failingOn []) uncovered).map (·.summary) =
      some { total := 2, high := 1, medium := 1 } := by
    decide +kernel
  rw [analyzed?, hrequest, ← analyzed?]
  exact Option.map_eq_some_iff.mp hsummary

/-- Risks beyond the scale are tallied. A run over a finding of high risk prints it in either case,
and fails with that risk as its threshold but not with the next one. A run without the documents
fails for another reason. -/
theorem threshold_decides_runs :
    (∃ result, (beyondScale.analyze Detector.emptyReports).value = .ok result ∧
      result.gaps.map (·.risk.rank) = [7, -2] ∧ result.summary.countFrom .critical = 1 ∧
      result.summary.low = 1 ∧ result.IsTallied) ∧
    ∀ surroundings,
      (∃ result, analyzed? { analysis := {} } (failingOn "HIGH") uncovered = some result ∧
        result.summary = { total := 2, high := 1, medium := 1 } ∧ result.IsTallied ∧
        Report.ShowsSummary false result.summary
          (analyzeOutcome surroundings { analysis := {} } (failingOn "HIGH") uncovered).output ∧
        (analyzeOutcome surroundings { analysis := {} } (failingOn "HIGH") uncovered).error? =
          some (.gapsFound .high)) ∧
      (analyzeOutcome surroundings { analysis := {} } (failingOn "CRITICAL") uncovered).error? =
        none ∧
      ∃ error, (analyzeOutcome surroundings { analysis := {} } (failingOn "HIGH")
          (.folder [])).error? = some error ∧
        error ≠ .gapsFound .high := by
  have hagrees := threshold_agrees_with_summary beyondScale (fillSlots · · []) Detector.emptyReports
  refine ⟨?_, fun surroundings => ⟨?_, ?_, ?_⟩⟩
  · have hvalue : (beyondScale.analyze Detector.emptyReports).value =
        .ok (beyondScale.merged Detector.emptyReports) := by decide
    exact ⟨_, hvalue, by decide, by decide, by decide, hagrees.1 _ hvalue⟩
  · obtain ⟨result, hresult, hsummary⟩ := analyzed_uncovered "HIGH"
    obtain ⟨htallied, houtput, hshows, herror⟩ := (hagrees.2 surroundings { analysis := {} }
      (failingOn "HIGH") uncovered .high (by decide) rfl).1 result hresult
    rw [hsummary] at herror
    exact ⟨result, hresult, hsummary, htallied, houtput ▸ hshows, herror⟩
  · obtain ⟨result, hresult, hsummary⟩ := analyzed_uncovered "CRITICAL"
    obtain ⟨-, -, -, herror⟩ := (hagrees.2 surroundings { analysis := {} }
      (failingOn "CRITICAL") uncovered .critical (by decide) rfl).1 result hresult
    rw [hsummary] at herror
    exact herror
  · obtain ⟨-, error, herror, hother⟩ := (hagrees.2 surroundings { analysis := {} }
      (failingOn "HIGH") (.folder []) .high (by decide) rfl).2 (by decide +kernel)
    exact ⟨error, herror, hother .high⟩

end Shortfall.Command
