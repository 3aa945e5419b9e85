import Mathlib.Algebra.Ring.Int.Defs
import Shortfall.Proofs.Gap.Configuration
import Shortfall.Proofs.Gap.Merge
import Shortfall.Proofs.Readings

/-!
# Counters over a session

A session is any sequence of analyses on a detector, with calls between them that change its
strategies. Each analysis tells the observer about every strategy that it runs and, last, how it
ended itself (`observations_perm`); how the additional strategies took turns does not matter. From
what one analysis adds to the counters (`Agrees.analysis`) follows what a whole session leaves in
them (`Session.agrees`). Nothing breaks the recorder off in a session exactly if the strategies that
are run have names that can be labels (`Session.recorded?_eq`).

What happened is told without the observations: an analysis fails for want of input or with its
primary strategy, and it runs the strategies that accept the request, the additional ones only
behind a primary strategy that has given an answer.
-/

namespace Shortfall.Gap

namespace Strategy

variable {strategy : Strategy} {request : Request}

/-- Whether the strategy, once it runs, ends with an answer. -/
def answers (strategy : Strategy) (request : Request) : Bool :=
  match strategy.analyze request with
  | .found _ | .nothing => true
  | .failed _ => false

theorem fails_iff : strategy.Fails request ↔
    (strategy.accepts request && strategy.answers request) = false := by
  rw [Fails, answers, Bool.and_eq_false_iff]
  cases strategy.analyze request <;> simp

/-- What an observer is told of a strategy: nothing if it declines the request. -/
def told (strategy : Strategy) (request : Request) : List Observation :=
  if strategy.accepts request then [.strategy strategy.name (strategy.answers request)] else []

private theorem observations_invoke (strategy : Strategy) (request : Request) :
    (strategy.invoke request).observations =
      [.strategy strategy.name (strategy.answers request)] := by
  simp only [invoke, gaps, answers]
  cases strategy.analyze request <;> rfl

private theorem observations_runAsPrimary (strategy : Strategy) (request : Request) :
    (strategy.runAsPrimary request).observations = strategy.told request := by
  simp only [runAsPrimary, told]
  split
  · rw [← observations_invoke]
    split <;> rfl
  · rfl

private theorem observations_runAsAdditional (strategy : Strategy) (request : Request) :
    (strategy.runAsAdditional request).observations = strategy.told request := by
  simp only [runAsAdditional, told]
  split
  · rw [← observations_invoke]
    split <;> rfl
  · rfl

/-- A primary strategy that gives no answer has declined the request or reports a failure. -/
theorem rejected_or_failed {failure : Failure}
    (h : (strategy.runAsPrimary request).value = .error failure) :
    failure = .rejected ∨ strategy.analyze request = .failed failure := by
  simp only [runAsPrimary] at h
  split at h
  · next haccepts =>
      right
      have hgaps : strategy.gaps request = .error failure := by
        cases hrun : strategy.gaps request with
        | ok found => simp only [value_invoke, hrun, reduceCtorEq] at h
        | error other => simpa only [value_invoke, hrun] using h
      rw [gaps_of_accepts haccepts] at hgaps
      split at hgaps
      · next other hfailed =>
          cases hgaps
          exact hfailed
      · cases hgaps
  · cases h
    exact .inl rfl

private theorem flatMap_told (strategies : List Strategy) (request : Request) :
    strategies.flatMap (·.told request) =
      (strategies.filter (·.accepts request)).map fun strategy =>
        .strategy strategy.name (strategy.answers request) := by
  induction strategies with
  | nil => rfl
  | cons strategy rest ih =>
      rw [List.flatMap_cons, ih, told, List.filter_cons]
      split <;> rfl

end Strategy

/-! ## One analysis -/

/-- How an analysis with this outcome is counted. -/
def endingOf : Except AnalysisError Summary → Metrics.Ending
  | .ok _ => .success
  | .error error => .ofError error

private theorem Summary.count_ofGaps_nonneg (gaps : List SecurityGap) (risk : Risk) :
    0 ≤ (Summary.ofGaps gaps).count risk := by
  simp only [Summary.ofGaps, Summary.count]
  split
  · exact Int.natCast_nonneg _
  · split
    · exact Int.natCast_nonneg _
    · split <;> exact Int.natCast_nonneg _

/-- An analysis: of what, by which detector, and what its additional strategies left in their
slots if they were run. -/
structure Analysis where
  detector : Detector
  request : Request
  slots : Slots

namespace Analysis

variable {analysis : Analysis}

/-- The slots come from a complete run of the additional strategies, in whatever turns. -/
def Sound (analysis : Analysis) : Prop :=
  ∃ limit pool, Pool.Steps analysis.request limit (.start analysis.detector.additional) pool ∧
    pool.Finished ∧ pool.slots = analysis.slots

def outcome (analysis : Analysis) : Traced (Except AnalysisError Result) :=
  analysis.detector.analyzeWith (fun _ _ => analysis.slots) analysis.request

def result? (analysis : Analysis) : Option Result := analysis.outcome.value.toOption

/-- Whether the primary strategy is asked and does not give an answer. -/
def primaryFails (analysis : Analysis) : Bool :=
  analysis.request.isComplete && !(analysis.detector.primary.accepts analysis.request
    && analysis.detector.primary.answers analysis.request)

/-- The strategies that are run: those that accept the request, the additional ones if the primary
strategy has given an answer. -/
def invoked (analysis : Analysis) : List Strategy :=
  if analysis.request.isComplete then
    (if analysis.primaryFails then [analysis.detector.primary]
      else analysis.detector.primary :: analysis.detector.additional).filter
        (·.accepts analysis.request)
  else []

/-- The strategies that are run, by name, and whether they give an answer. -/
def runs (analysis : Analysis) : List (Text × Bool) :=
  analysis.invoked.map fun strategy => (strategy.name, strategy.answers analysis.request)

/-- The primary strategy does not report missing input where nothing is missing. -/
def Candid (analysis : Analysis) : Prop :=
  analysis.request.isComplete = true →
    ∀ error, analysis.detector.primary.analyze analysis.request ≠ .failed (.invalid error)

/-- The names of the strategies that are run can be labels. -/
def Labelled (analysis : Analysis) : Prop :=
  ∀ strategy ∈ analysis.invoked, strategy.name.isWellFormed = true

instance (analysis : Analysis) : Decidable analysis.Labelled :=
  inferInstanceAs (Decidable (∀ strategy ∈ analysis.invoked, strategy.name.isWellFormed = true))

/-- How the analysis ended. -/
def ending (analysis : Analysis) : Metrics.Ending :=
  if !analysis.request.isComplete then .invalid
  else if analysis.primaryFails then .failure
  else .success

private theorem countP_runs (analysis : Analysis) (name : Text) :
    analysis.runs.countP (·.1 = name) = analysis.invoked.countP (·.name = name) :=
  List.countP_map

theorem primaryFails_iff (hcomplete : analysis.request.isComplete = true) :
    analysis.primaryFails = true ↔ analysis.detector.primary.Fails analysis.request := by
  rw [primaryFails, hcomplete, Bool.true_and, Bool.not_eq_true', Strategy.fails_iff]

/-- **What an analysis can come to**: input is missing, the primary strategy gives no answer, or
there is a result. -/
theorem outcome_cases (h : analysis.Sound) :
    (∃ error, analysis.request.isComplete = false ∧
      analysis.outcome.value = .error (.invalid error) ∧
      analysis.outcome.observations = [.analysis (.error (.invalid error))]) ∨
    (∃ failure, analysis.request.isComplete = true ∧ analysis.primaryFails = true ∧
      (failure = .rejected ∨
        analysis.detector.primary.analyze analysis.request = .failed failure) ∧
      analysis.outcome.value = .error (.failed analysis.detector.primary.name failure) ∧
      analysis.outcome.observations = analysis.detector.primary.told analysis.request ++
        [.analysis (.error (.failed analysis.detector.primary.name failure))]) ∨
    ∃ gaps, analysis.request.isComplete = true ∧ analysis.primaryFails = false ∧
      analysis.outcome.value = .ok (.ofGaps gaps) ∧
      analysis.outcome.observations.Perm
        ((analysis.detector.primary :: analysis.detector.additional).flatMap
          (·.told analysis.request) ++ [.analysis (.ok (.ofGaps gaps))]) := by
  cases hinput : analysis.request.input with
  | error error =>
      left
      refine ⟨error, by simp only [Request.isComplete, hinput], ?_, ?_⟩ <;>
        simp only [outcome, Detector.analyzeWith, hinput]
  | ok input =>
      right
      have hcomplete : analysis.request.isComplete = true := by
        simp only [Request.isComplete, hinput]
      by_cases hfails : analysis.detector.primary.Fails analysis.request
      · left
        obtain ⟨failure, hfailure⟩ := Strategy.exists_error_runAsPrimary hfails
        refine ⟨failure, hcomplete, (primaryFails_iff hcomplete).mpr hfails,
          Strategy.rejected_or_failed hfailure, ?_, ?_⟩
        · simp only [outcome, Detector.analyzeWith, hinput, hfailure]
        · simp only [outcome, Detector.analyzeWith, hinput, hfailure,
            Strategy.observations_runAsPrimary]
      · right
        have hsucceeds : ¬analysis.detector.Fails analysis.request := by
          rw [Detector.Fails, hcomplete]
          simpa using hfails
        obtain ⟨hvalue, hobservations⟩ :=
          Detector.analyzeWith_of_succeeds hsucceeds (fun _ _ => analysis.slots)
        refine ⟨_, hcomplete, Bool.eq_false_iff.mpr (mt (primaryFails_iff hcomplete).mp hfails),
          hvalue, ?_⟩
        obtain ⟨limit, pool, hsteps, hfinished, hslots⟩ := h
        have hreports := ((Pool.consistent_of_steps hsteps).slots_of_finished hfinished).2
        simp only [hslots, Strategy.observations_runAsAdditional] at hreports
        rw [outcome, hobservations, Strategy.observations_runAsPrimary, List.flatMap_cons]
        exact (hreports.append_left _).append_right _

/-- **What an observer is told**: of every strategy that was run, and how the analysis ended. -/
theorem observations_perm (h : analysis.Sound) :
    analysis.outcome.observations.Perm
      (analysis.runs.map (fun run => .strategy run.1 run.2) ++
        [.analysis (analysis.outcome.value.map (·.summary))]) := by
  have hruns : analysis.runs.map (fun run => Observation.strategy run.1 run.2) =
      analysis.invoked.map fun strategy =>
        .strategy strategy.name (strategy.answers analysis.request) := List.map_map
  rw [hruns]
  rcases outcome_cases h with ⟨error, hcomplete, hvalue, htold⟩ |
    ⟨failure, hcomplete, hfails, _, hvalue, htold⟩ | ⟨gaps, hcomplete, hfails, hvalue, htold⟩
  · simp only [invoked, hcomplete, hvalue, htold]
    exact .refl _
  · simp only [invoked, hcomplete, hfails, if_true, hvalue, htold]
    rw [← Strategy.flatMap_told, List.flatMap_singleton]
    exact .refl _
  · simp only [invoked, hcomplete, hfails, if_true, Bool.false_eq_true, if_false, hvalue]
    rw [← Strategy.flatMap_told]
    exact htold

/-- A recorder takes all that it is told exactly if the names are labels. -/
theorem all_takes_observations (h : analysis.Sound) :
    analysis.outcome.observations.all Metrics.takes = true ↔ analysis.Labelled := by
  rw [(observations_perm h).all_eq, List.all_append, List.all_map, Bool.and_eq_true,
    List.all_eq_true, runs, List.forall_mem_map]
  exact ⟨fun hall => hall.1, fun hall => ⟨hall, rfl⟩⟩

private theorem endingOf_outcome (h : analysis.Sound) (hcandid : analysis.Candid) :
    endingOf (analysis.outcome.value.map (·.summary)) = analysis.ending := by
  rcases outcome_cases h with ⟨error, hcomplete, hvalue, _⟩ |
    ⟨failure, hcomplete, hfails, hcause, hvalue, _⟩ | ⟨gaps, hcomplete, hfails, hvalue, _⟩
  · simp only [ending, hcomplete, hvalue]
    rfl
  · simp only [ending, hcomplete, hfails, hvalue]
    cases failure with
    | invalid error =>
        rcases hcause with hcause | hcause
        · cases hcause
        · exact absurd hcause (hcandid hcomplete error)
    | rejected => rfl
    | panicked message => rfl
    | reported message => rfl
  · simp only [ending, hcomplete, hfails, hvalue]
    rfl

theorem isSome_result?_iff (h : analysis.Sound) :
    analysis.result?.isSome ↔ analysis.ending = .success := by
  rcases outcome_cases h with ⟨error, hcomplete, hvalue, _⟩ |
    ⟨failure, hcomplete, hfails, _, hvalue, _⟩ | ⟨gaps, hcomplete, hfails, hvalue, _⟩
  · simp [result?, ending, hcomplete, hvalue, Except.toOption]
  · simp [result?, ending, hcomplete, hfails, hvalue, Except.toOption]
  · simp [result?, ending, hcomplete, hfails, hvalue, Except.toOption]

theorem ending_eq_invalid_iff : analysis.ending = .invalid ↔ !analysis.request.isComplete := by
  simp only [ending]
  split <;> grind

theorem ending_eq_failure_iff : analysis.ending = .failure ↔ analysis.primaryFails := by
  simp only [ending, primaryFails]
  split <;> grind

private theorem count_summary_nonneg (h : analysis.Sound) {result : Result}
    (hresult : analysis.outcome.value = .ok result) (risk : Risk) :
    0 ≤ result.summary.count risk := by
  rcases outcome_cases h with ⟨error, _, hvalue, _⟩ | ⟨failure, _, _, _, hvalue, _⟩ |
    ⟨gaps, _, _, hvalue, _⟩
  · rw [hvalue] at hresult
    cases hresult
  · rw [hvalue] at hresult
    cases hresult
  · rw [hvalue] at hresult
    cases hresult
    exact Summary.count_ofGaps_nonneg gaps risk

end Analysis

end Shortfall.Gap

/-! ## What is added to the counters -/

namespace Shortfall.Metrics

private theorem tally_addRun (metrics : Metrics) (strategy name : Text) (succeeded : Bool) :
    (metrics.addRun strategy succeeded).tally name =
      if name = strategy then (metrics.tally name).add succeeded else metrics.tally name := by
  rw [addRun_eq]
  simp only [tally, NameMap.get?_insert]
  split
  · next hname => rw [hname, Option.getD_some]
  · rfl

/-- Runs of strategies change nothing but the tallies. -/
theorem observeAll_runs (metrics : Metrics) (runs : List (Text × Bool)) :
    ∃ strategies, metrics.observeAll (runs.map fun run => .strategy run.1 run.2) =
      { metrics with strategies } := by
  induction runs generalizing metrics with
  | nil => exact ⟨metrics.strategies, rfl⟩
  | cons run runs ih => exact ih (metrics.addRun run.1 run.2)

private theorem tally_observeAll_runs (metrics : Metrics) (runs : List (Text × Bool))
    (name : Text) : (metrics.observeAll (runs.map fun run => .strategy run.1 run.2)).tally name =
      { succeeded := (metrics.tally name).succeeded + runs.count (name, true)
        failed := (metrics.tally name).failed + runs.count (name, false)
        timed := (metrics.tally name).timed + runs.countP (·.1 = name) } := by
  induction runs generalizing metrics with
  | nil => rfl
  | cons run runs ih =>
      have hfirst : metrics.observeAll ((run :: runs).map fun run => .strategy run.1 run.2) =
          (metrics.addRun run.1 run.2).observeAll (runs.map fun run => .strategy run.1 run.2) := rfl
      rw [hfirst, ih, tally_addRun]
      obtain ⟨strategy, succeeded⟩ := run
      by_cases hname : name = strategy
      · subst hname
        cases succeeded <;> simp [StrategyTally.add] <;> omega
      · have hname' : strategy ≠ name := fun h => hname h.symm
        simp [hname, hname']

end Shortfall.Metrics

namespace Shortfall.Gap

private theorem count_observe_analysis (metrics : Metrics) (outcome : Except AnalysisError Summary)
    (ending : Metrics.Ending) :
    (Metrics.Counter.analyses ending).count (metrics.observe (.analysis outcome)) =
      (Metrics.Counter.analyses ending).count metrics +
        if endingOf outcome = ending then 1 else 0 := by
  cases outcome with
  | ok summary => cases ending <;> rfl
  | error error =>
      rw [Metrics.observe, endingOf]
      cases Metrics.Ending.ofError error <;> cases ending <;> rfl

private theorem gaps_observe_analysis (metrics : Metrics) (outcome : Except AnalysisError Summary)
    {risk : Risk} (h : risk ∈ Risk.scale) :
    (metrics.observe (.analysis outcome)).gaps risk =
      metrics.gaps risk +
        (outcome.toOption.map fun summary => (summary.count risk).toNat).getD 0 := by
  cases outcome with
  | ok summary =>
      simp only [Risk.scale, List.mem_cons, List.not_mem_nil, or_false] at h
      rcases h with rfl | rfl | rfl | rfl <;> rfl
  | error error =>
      rw [Metrics.observe]
      cases Metrics.Ending.ofError error <;> rfl

private theorem tally_observe_analysis (metrics : Metrics) (outcome : Except AnalysisError Summary)
    (name : Text) : (metrics.observe (.analysis outcome)).tally name = metrics.tally name := by
  cases outcome with
  | ok summary => rfl
  | error error =>
      rw [Metrics.observe]
      cases Metrics.Ending.ofError error <;> rfl

/-! ## Sessions -/

/-- Analyses on a detector one after another, with changes of its strategies in between. -/
inductive Session (first : Detector) : List Analysis → Detector → Prop where
  | start : Session first [] first
  | change {analyses : List Analysis} {current : Detector} (call : Call)
      (h : Session first analyses current) : Session first analyses (current.after call)
  | analyze {analyses : List Analysis} {analysis : Analysis}
      (h : Session first analyses analysis.detector) (hsound : analysis.Sound) :
      Session first (analyses ++ [analysis]) analysis.detector

/-- The counters of a recorder that was there from the start, if nothing broke it off. -/
def recorded? (analyses : List Analysis) : Option Metrics :=
  Metrics.recordAll? {} (analyses.flatMap (·.outcome.observations))

/-- The counters where nothing did. -/
def recorded (analyses : List Analysis) : Metrics :=
  Metrics.observeAll {} (analyses.flatMap (·.outcome.observations))

private theorem recorded_concat (analyses : List Analysis) (analysis : Analysis) :
    recorded (analyses ++ [analysis]) =
      (recorded analyses).observeAll analysis.outcome.observations := by
  simp [recorded, Metrics.observeAll, List.foldl_append]

/-- The counters tell what happened in the analyses. -/
structure Agrees (metrics : Metrics) (analyses : List Analysis) : Prop where
  endings : ∀ ending, (Metrics.Counter.analyses ending).count metrics =
    analyses.countP (·.ending = ending)
  gaps : ∀ risk ∈ Risk.scale, (metrics.gaps risk : Int) =
    ((analyses.filterMap (·.result?)).map (·.summary.count risk)).sum
  tallies : ∀ name, metrics.tally name =
    { succeeded := (analyses.flatMap (·.runs)).count (name, true)
      failed := (analyses.flatMap (·.runs)).count (name, false)
      timed := (analyses.flatMap (·.runs)).countP (·.1 = name) }

private theorem agrees_nil : Agrees {} [] where
  endings ending := by cases ending <;> rfl
  gaps risk hrisk := by
    simp only [Risk.scale, List.mem_cons, List.not_mem_nil, or_false] at hrisk
    rcases hrisk with rfl | rfl | rfl | rfl <;> rfl
  tallies name := rfl

/-- An analysis leaves the counters as they should be. -/
theorem Agrees.analysis {metrics : Metrics} {analyses : List Analysis} {analysis : Analysis}
    (h : Agrees metrics analyses) (hsound : analysis.Sound) (hcandid : analysis.Candid) :
    Agrees (metrics.observeAll analysis.outcome.observations) (analyses ++ [analysis]) := by
  obtain ⟨strategies, hruns⟩ := metrics.observeAll_runs analysis.runs
  have htallies := metrics.tally_observeAll_runs analysis.runs
  rw [hruns] at htallies
  have hafter : metrics.observeAll analysis.outcome.observations =
      Metrics.observe { metrics with strategies }
        (.analysis (analysis.outcome.value.map (·.summary))) := by
    rw [metrics.observeAll_eq_of_perm (Analysis.observations_perm hsound), ← hruns]
    exact List.foldl_append
  rw [hafter]
  refine ⟨fun ending => ?_, fun risk hrisk => ?_, fun name => ?_⟩
  · rw [count_observe_analysis, Analysis.endingOf_outcome hsound hcandid, List.countP_append,
      ← h.endings, List.countP_singleton]
    cases ending <;> simp [Metrics.Counter.count]
  · rw [gaps_observe_analysis _ _ hrisk, List.filterMap_append, List.map_append, List.sum_append,
      ← h.gaps risk hrisk, Int.natCast_add]
    congr 1
    cases hvalue : analysis.outcome.value with
    | error error => simp [Analysis.result?, hvalue, Except.map, Except.toOption]
    | ok result =>
        have hnonneg := Analysis.count_summary_nonneg hsound hvalue risk
        simp [Analysis.result?, hvalue, Except.map, Except.toOption, hnonneg]
  · rw [tally_observe_analysis, htallies, h.tallies]
    simp [List.flatMap_append, List.count_append, List.countP_append]

/-- The counters at the end of a session tell what happened in it. -/
theorem Session.agrees {first last : Detector} {analyses : List Analysis}
    (h : Session first analyses last) (hcandid : ∀ analysis ∈ analyses, analysis.Candid) :
    Agrees (recorded analyses) analyses := by
  induction h with
  | start => exact agrees_nil
  | change _ _ ih => exact ih hcandid
  | @analyze analyses analysis _ hsound ih =>
      rw [List.forall_mem_append, List.forall_mem_singleton] at hcandid
      rw [recorded_concat]
      exact (ih hcandid.1).analysis hsound hcandid.2

theorem Session.sound {first last : Detector} {analyses : List Analysis}
    (h : Session first analyses last) : ∀ analysis ∈ analyses, analysis.Sound := by
  induction h with
  | start => exact fun _ hmem => absurd hmem List.not_mem_nil
  | change _ _ ih => exact ih
  | analyze _ hsound ih =>
      exact List.forall_mem_append.mpr ⟨ih, List.forall_mem_singleton.mpr hsound⟩

/-- A recorder lasts through a session exactly if the names of the strategies are labels. -/
theorem Session.recorded?_eq {first last : Detector} {analyses : List Analysis}
    (h : Session first analyses last) :
    recorded? analyses =
      if ∀ analysis ∈ analyses, analysis.Labelled then some (recorded analyses) else none := by
  have htaken : (analyses.flatMap (·.outcome.observations)).all Metrics.takes = true ↔
      ∀ analysis ∈ analyses, analysis.Labelled := by
    rw [List.all_flatMap, List.all_eq_true]
    exact forall₂_congr fun analysis hmem =>
      Analysis.all_takes_observations (h.sound analysis hmem)
  rw [recorded?, Metrics.recordAll?_eq, recorded]
  exact if_congr htaken rfl rfl

/-- Every analysis ends in one of the three ways. -/
theorem countP_endings (analyses : List Analysis) :
    analyses.countP (·.ending = .success) + analyses.countP (·.ending = .invalid) +
      analyses.countP (·.ending = .failure) = analyses.length := by
  induction analyses with
  | nil => rfl
  | cons analysis rest ih =>
      simp only [List.countP_cons, List.length_cons]
      cases analysis.ending <;> simp <;> omega

/-- A run ends with an answer or without. -/
theorem countP_fst_eq (runs : List (Text × Bool)) (name : Text) :
    runs.countP (·.1 = name) = runs.count (name, true) + runs.count (name, false) := by
  induction runs with
  | nil => rfl
  | cons run rest ih =>
      obtain ⟨strategy, succeeded⟩ := run
      simp only [List.countP_cons, List.count_cons, ih]
      cases succeeded <;> by_cases hname : strategy = name <;> simp [hname] <;> omega

/-- **The counters tell the session.** The recorder lasts through a session exactly if the
strategies that are run have names that can be labels. However the strategies are changed between
the analyses and whatever turns the additional ones take: of the analyses, those with a result are
counted as successes, those of a request with something missing as invalid and those whose primary
strategy gives no answer as failures, and there are no others. The gaps counted at a risk are those
that the summaries of the results count. A strategy is timed once for every run that it accepts, and
each run is counted as a success or as a failure. -/
theorem counters_tell_session {first last : Detector} {analyses : List Analysis}
    (h : Session first analyses last) (hcandid : ∀ analysis ∈ analyses, analysis.Candid) :
    ((recorded? analyses).isSome ↔ ∀ analysis ∈ analyses, analysis.Labelled) ∧
    ∀ metrics, recorded? analyses = some metrics →
      let read := metrics.reading
      let ended (outcome : Text) := read "analysis_runs_total" [("outcome", outcome)]
      let timed (strategy : Text) := read "strategy_duration_seconds" [("strategy", strategy)]
      let ran (outcome strategy : Text) :=
        read "strategy_runs_total" [("outcome", outcome), ("strategy", strategy)]
      ended "success" = analyses.countP (·.result?.isSome) ∧
      ended "invalid" = analyses.countP (!·.request.isComplete) ∧
      ended "failure" = analyses.countP (·.primaryFails) ∧
      ended "success" + ended "invalid" + ended "failure" = analyses.length ∧
      (∀ risk ∈ Risk.scale, (read "gaps_total" [("risk_level", risk.name)] : Int) =
        ((analyses.filterMap (·.result?)).map (·.summary.count risk)).sum) ∧
      ∀ name, timed name = (analyses.flatMap (·.invoked)).countP (·.name = name) ∧
        timed name = ran "success" name + ran "failure" name ∧
        ran "success" name = (analyses.flatMap (·.runs)).count (name, true) := by
  constructor
  · rw [h.recorded?_eq]
    split <;> simp_all
  intro metrics hmetrics read ended timed ran
  have hagrees : Agrees metrics analyses := by
    rw [h.recorded?_eq] at hmetrics
    split at hmetrics
    · exact Option.some.inj hmetrics ▸ h.agrees hcandid
    · cases hmetrics
  have hended : ∀ ending : Metrics.Ending,
      ended ending.name = analyses.countP (·.ending = ending) := fun ending =>
    (metrics.reading_counter (.analyses ending)).trans (hagrees.endings ending)
  have hsuccess : ended "success" = _ := hended .success
  have hinvalid : ended "invalid" = _ := hended .invalid
  have hfailure : ended "failure" = _ := hended .failure
  have htimed : ∀ name, timed name = (analyses.flatMap (·.runs)).countP (·.1 = name) :=
    fun name => (metrics.reading_counter (.durations name)).trans
      (congrArg StrategyTally.timed (hagrees.tallies name))
  have hran : ∀ name, ran "success" name = (analyses.flatMap (·.runs)).count (name, true) :=
    fun name => (metrics.reading_counter (.successes name)).trans
      (congrArg StrategyTally.succeeded (hagrees.tallies name))
  have hmissed : ∀ name, ran "failure" name = (analyses.flatMap (·.runs)).count (name, false) :=
    fun name => (metrics.reading_counter (.failures name)).trans
      (congrArg StrategyTally.failed (hagrees.tallies name))
  refine ⟨?_, ?_, ?_, ?_, fun risk hrisk => ?_, fun name => ⟨?_, ?_, hran name⟩⟩
  · rw [hsuccess]
    refine List.countP_congr fun analysis hmem => ?_
    rw [decide_eq_true_iff, Analysis.isSome_result?_iff (h.sound analysis hmem)]
  · rw [hinvalid]
    refine List.countP_congr fun analysis _ => ?_
    rw [decide_eq_true_iff, Analysis.ending_eq_invalid_iff]
  · rw [hfailure]
    refine List.countP_congr fun analysis _ => ?_
    rw [decide_eq_true_iff, Analysis.ending_eq_failure_iff]
  · rw [hsuccess, hinvalid, hfailure, countP_endings]
  · rw [← hagrees.gaps risk hrisk]
    exact congrArg Nat.cast (metrics.reading_counter (.gaps risk hrisk))
  · rw [htimed, List.countP_flatMap, List.countP_flatMap]
    exact congrArg (fun counts => (analyses.map counts).sum)
      (funext fun analysis => analysis.countP_runs name)
  · rw [htimed, hran, hmissed, countP_fst_eq]

/-- The analysis that runs the additional strategies in the order of their registration. -/
def Analysis.inOrder (detector : Detector) (request : Request) : Analysis where
  detector := detector
  request := request
  slots := fillSlots detector.additional request (List.range detector.additional.length)

theorem Analysis.sound_inOrder (detector : Detector) (request : Request) :
    (Analysis.inOrder detector request).Sound := by
  obtain ⟨pool, hsteps, hfinished, hslots⟩ := Pool.exists_finished_fillSlots Nat.one_pos
    detector.additional request (.refl _)
  exact ⟨1, pool, hsteps, hfinished, hslots⟩

/-- A change of the primary strategy to one that fails. -/
def toBroken : Call := .set (some (Detector.endingWith "broken" (.failed (.reported "no rules"))))

/-- An analysis with a result, one that fails for its primary strategy and one with nothing to
analyze. -/
def threeAnalyses : List Analysis := [
  .inOrder Detector.brokenAndFinder Detector.emptyReports,
  .inOrder (Detector.brokenAndFinder.after toBroken) Detector.emptyReports,
  .inOrder (Detector.brokenAndFinder.after toBroken) {}]

theorem counters_tell_threeAnalyses :
    Session Detector.brokenAndFinder threeAnalyses (Detector.brokenAndFinder.after toBroken) ∧
    ∃ metrics, recorded? threeAnalyses = some metrics ∧
      metrics.reading "analysis_runs_total" [("outcome", "success")] = 1 ∧
      metrics.reading "analysis_runs_total" [("outcome", "invalid")] = 1 ∧
      metrics.reading "analysis_runs_total" [("outcome", "failure")] = 1 ∧
      metrics.reading "strategy_duration_seconds" [("strategy", "broken")] = 2 ∧
      metrics.reading "strategy_duration_seconds" [("strategy", "finder")] = 1 := by
  have hfound : Session Detector.brokenAndFinder (threeAnalyses.take 1) Detector.brokenAndFinder :=
    .analyze .start (Analysis.sound_inOrder Detector.brokenAndFinder Detector.emptyReports)
  have hbroken : Session Detector.brokenAndFinder (threeAnalyses.take 2)
      (Detector.brokenAndFinder.after toBroken) :=
    .analyze (.change toBroken hfound)
      (Analysis.sound_inOrder (Detector.brokenAndFinder.after toBroken) Detector.emptyReports)
  have hsession : Session Detector.brokenAndFinder threeAnalyses
      (Detector.brokenAndFinder.after toBroken) :=
    .analyze hbroken (Analysis.sound_inOrder (Detector.brokenAndFinder.after toBroken) {})
  have hcandid : ∀ analysis ∈ threeAnalyses, analysis.Candid := by
    intro analysis hmem _ error
    simp only [threeAnalyses, List.mem_cons, List.not_mem_nil, or_false] at hmem
    rcases hmem with rfl | rfl | rfl <;> exact nofun
  obtain ⟨hlasts, hcounts⟩ := counters_tell_session hsession hcandid
  have hlabelled : ∀ analysis ∈ threeAnalyses, analysis.Labelled := by decide
  obtain ⟨metrics, hmetrics⟩ := Option.isSome_iff_exists.mp (hlasts.mpr hlabelled)
  obtain ⟨hsuccess, hinvalid, hfailure, _, _, hruns⟩ := hcounts metrics hmetrics
  exact ⟨hsession, metrics, hmetrics, hsuccess, hinvalid, hfailure, (hruns "broken").1,
    (hruns "finder").1⟩

end Shortfall.Gap
