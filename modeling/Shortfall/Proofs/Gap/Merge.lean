import Shortfall.Proofs.Counting
import Shortfall.Proofs.Gap.Pool

/-!
# What an analysis comes to

Whatever a strategy does, what it adds to a result is a list of gaps: its `contribution`, which is
empty when it declines, fails, breaks off or has nothing to say. An analysis fails when its input is
incomplete or its primary strategy fails, and then the additional strategies are never asked
(`analyzeWith_of_fails`). Otherwise its result is that of the contributions of all strategies in
the order of registration (`analyzeWith_of_succeeds`), so the way in which the additional strategies
were run shows neither in the result nor in the counters of an observer.

## Main results

* `Strategy.value_runAsPrimary`, `Strategy.value_runAsAdditional`: what one strategy comes to.
* `Detector.value_analyze_of_succeeds`: what an analysis comes to.
* `Detector.sameOutcome_of_finished`: it does so however the additional strategies were run.
-/

namespace Shortfall.Gap

namespace Strategy

/-- The strategy gives no gaps for the request: it declines it, or it fails or breaks off. -/
def Fails (strategy : Strategy) (request : Request) : Prop :=
  strategy.accepts request = false ∨ ∃ failure, strategy.analyze request = .failed failure

/-- The gaps that the strategy adds to a result. Those that do not say who found them are marked
with its name. -/
def contribution (strategy : Strategy) (request : Request) : List SecurityGap :=
  if strategy.accepts request then
    match strategy.analyze request with
    | .found result => result.gaps.map fun gap =>
        if gap.detectedBy = [] then { gap with detectedBy := strategy.name } else gap
    | .nothing => []
    | .failed _ => []
  else []

variable {strategy : Strategy} {request : Request}

theorem contribution_of_fails (h : strategy.Fails request) :
    strategy.contribution request = [] := by
  rcases h with hrejects | ⟨failure, hfailed⟩
  · simp [contribution, hrejects]
  · simp [contribution, hfailed]

/-- A strategy that accepts the request fails with what it reports or finds its contribution. -/
theorem gaps_of_accepts (haccepts : strategy.accepts request = true) :
    strategy.gaps request =
      match strategy.analyze request with
      | .failed failure => .error failure
      | _ => .ok (strategy.contribution request) := by
  simp only [gaps, contribution, haccepts, if_true, SecurityGap.markedBy, List.isEmpty_iff]
  cases strategy.analyze request <;> rfl

theorem value_invoke (strategy : Strategy) (request : Request) :
    (strategy.invoke request).value = strategy.gaps request := rfl

/-- As the primary strategy, a strategy that fails is an error. -/
theorem exists_error_runAsPrimary (h : strategy.Fails request) :
    ∃ failure, (strategy.runAsPrimary request).value = .error failure := by
  simp only [runAsPrimary]
  split
  · next haccepts =>
      obtain ⟨failure, hfailed⟩ := h.resolve_left (by simp [haccepts])
      have hgaps : strategy.gaps request = .error failure := by
        rw [gaps_of_accepts haccepts, hfailed]
      simp only [value_invoke, hgaps]
      exact ⟨failure, rfl⟩
  · exact ⟨.rejected, rfl⟩

/-- As the primary strategy, a strategy that does not fail gives its contribution. -/
theorem value_runAsPrimary (h : ¬strategy.Fails request) :
    (strategy.runAsPrimary request).value = .ok (strategy.contribution request) := by
  simp only [Fails, not_or, not_exists, Bool.not_eq_false] at h
  obtain ⟨haccepts, hnot⟩ := h
  have hgaps : strategy.gaps request = .ok (strategy.contribution request) := by
    rw [gaps_of_accepts haccepts]
    split
    · next failure hfailed => exact absurd hfailed (hnot failure)
    · rfl
  simp only [runAsPrimary, haccepts, if_true, value_invoke, hgaps]

/-- As an additional strategy, a strategy always gives its contribution. -/
theorem value_runAsAdditional (strategy : Strategy) (request : Request) :
    (strategy.runAsAdditional request).value = strategy.contribution request := by
  simp only [runAsAdditional]
  split
  · next haccepts =>
      simp only [value_invoke, gaps_of_accepts haccepts]
      cases houtcome : strategy.analyze request with
      | found result => rfl
      | nothing => rfl
      | failed failure => exact (contribution_of_fails (.inr ⟨failure, houtcome⟩)).symm
  · next hrejects =>
      rw [Bool.not_eq_true] at hrejects
      exact (contribution_of_fails (.inl hrejects)).symm

end Strategy

namespace Detector

variable {detector : Detector} {request : Request}

/-- An analysis gives no result: part of the input is missing, or the primary strategy fails. -/
def Fails (detector : Detector) (request : Request) : Prop :=
  request.isComplete = false ∨ detector.primary.Fails request

/-- An analysis that fails does so without asking the additional strategies, so its outcome is a
matter of the primary strategy alone. -/
theorem analyzeWith_of_fails (h : detector.Fails request) :
    ∃ outcome, (∃ error, outcome.value = .error error) ∧
      ∀ other : Detector, other.primary = detector.primary →
        ∀ fill, other.analyzeWith fill request = outcome := by
  cases hinput : request.input with
  | error error =>
      refine ⟨{ value := .error (.invalid error)
                observations := [.analysis (.error (.invalid error))] },
        ⟨_, rfl⟩, fun other _ fill => ?_⟩
      simp only [analyzeWith, hinput]
  | ok input =>
      have hcomplete : request.isComplete = true := by simp only [Request.isComplete, hinput]
      obtain ⟨failure, hfailure⟩ :=
        Strategy.exists_error_runAsPrimary (h.resolve_left (by simp [hcomplete]))
      refine ⟨{ value := .error (.failed detector.primary.name failure)
                entries := (detector.primary.runAsPrimary request).entries
                observations := (detector.primary.runAsPrimary request).observations
                  ++ [.analysis (.error (.failed detector.primary.name failure))] },
        ⟨_, rfl⟩, fun other hprimary fill => ?_⟩
      simp only [analyzeWith, hinput, hprimary, hfailure]

/-- The result of the primary strategy with what is found in the slots behind it. -/
def resultWith (detector : Detector) (request : Request) (slots : Slots) : Result :=
  .ofGaps (deduplicate (detector.primary.contribution request ++ slots.value.flatten))

theorem analyzeWith_of_succeeds (h : ¬detector.Fails request)
    (fill : List Strategy → Request → Slots) :
    (detector.analyzeWith fill request).value =
        .ok (detector.resultWith request (fill detector.additional request)) ∧
      (detector.analyzeWith fill request).observations =
        (detector.primary.runAsPrimary request).observations
          ++ (fill detector.additional request).observations
          ++ [.analysis (.ok (detector.resultWith request
            (fill detector.additional request)).summary)] := by
  simp only [Fails, not_or, Bool.not_eq_false] at h
  obtain ⟨hcomplete, hprimary⟩ := h
  have hvalue := Strategy.value_runAsPrimary hprimary
  cases hinput : request.input with
  | error error => simp [Request.isComplete, hinput] at hcomplete
  | ok input =>
      simp only [analyzeWith, hinput, hvalue]
      exact ⟨rfl, rfl⟩

/-- The contributions of all strategies, the primary one first and then in the order of
registration, as one result. -/
def merged (detector : Detector) (request : Request) : Result :=
  .ofGaps (deduplicate (detector.primary.contribution request
    ++ detector.additional.flatMap (·.contribution request)))

private theorem resultWith_of_finished {limit : Nat} {pool : Pool}
    (hsteps : Pool.Steps request limit (.start detector.additional) pool)
    (hfinished : pool.Finished) :
    detector.resultWith request pool.slots = detector.merged request := by
  have hslots := (Pool.consistent_of_steps hsteps).slots_of_finished hfinished
  rw [resultWith, hslots.1, merged, List.flatMap_def]
  simp only [Strategy.value_runAsAdditional]

theorem value_analyze_of_succeeds (h : ¬detector.Fails request) :
    (detector.analyze request).value = .ok (detector.merged request) := by
  obtain ⟨pool, hsteps, hfinished, hslots⟩ := Pool.exists_finished_fillSlots Nat.one_pos
    detector.additional request (List.Perm.refl _)
  rw [analyze, analyzeInOrder, (analyzeWith_of_succeeds h _).1, ← hslots,
    resultWith_of_finished hsteps hfinished]

theorem exists_error_analyze_iff :
    (∃ error, (detector.analyze request).value = .error error) ↔ detector.Fails request := by
  constructor
  · rintro ⟨error, herror⟩
    by_contra h
    rw [value_analyze_of_succeeds h] at herror
    cases herror
  · intro h
    obtain ⟨outcome, herror, houtcome⟩ := analyzeWith_of_fails h
    rw [analyze, analyzeInOrder, houtcome detector rfl]
    exact herror

/-! ## Any way to run the additional strategies -/

/-- The same for the caller, and the same counters for an observer. -/
def SameOutcome (first second : Traced (Except AnalysisError Result)) : Prop :=
  first.value = second.value ∧
    ∀ metrics : Metrics,
      metrics.observeAll first.observations = metrics.observeAll second.observations

/-- Two ways to run the additional strategies that leave the same gaps and make the same reports,
in whatever order, make no difference. -/
theorem analyzeWith_congr {fill fill' : List Strategy → Request → Slots}
    (hvalue : (fill detector.additional request).value = (fill' detector.additional request).value)
    (hobservations : (fill detector.additional request).observations.Perm
      (fill' detector.additional request).observations) :
    SameOutcome (detector.analyzeWith fill request) (detector.analyzeWith fill' request) := by
  by_cases h : detector.Fails request
  · obtain ⟨outcome, _, houtcome⟩ := analyzeWith_of_fails h
    rw [houtcome detector rfl fill, houtcome detector rfl fill']
    exact ⟨rfl, fun _ => rfl⟩
  · obtain ⟨hleft, hleftTold⟩ := analyzeWith_of_succeeds h fill
    obtain ⟨hright, hrightTold⟩ := analyzeWith_of_succeeds h fill'
    have hresult : detector.resultWith request (fill detector.additional request) =
        detector.resultWith request (fill' detector.additional request) := by
      rw [resultWith, resultWith, hvalue]
    refine ⟨by rw [hleft, hright, hresult], fun metrics => ?_⟩
    rw [hleftTold, hrightTold, hresult]
    exact metrics.observeAll_eq_of_perm ((hobservations.append_left _).append_right _)

theorem sameOutcome_of_finished {limit : Nat} {pool : Pool}
    (hsteps : Pool.Steps request limit (.start detector.additional) pool)
    (hfinished : pool.Finished) {fill : List Strategy → Request → Slots}
    (hfill : fill detector.additional request = pool.slots) :
    SameOutcome (detector.analyzeWith fill request) (detector.analyze request) := by
  obtain ⟨inOrder, hsteps', hfinished', hslots⟩ := Pool.exists_finished_fillSlots Nat.one_pos
    detector.additional request (List.Perm.refl _)
  obtain ⟨hvalue, hreports⟩ := (Pool.consistent_of_steps hsteps).slots_of_finished hfinished
  obtain ⟨hvalue', hreports'⟩ := (Pool.consistent_of_steps hsteps').slots_of_finished hfinished'
  apply analyzeWith_congr
  · rw [hfill, ← hslots, hvalue, hvalue']
  · rw [hfill, ← hslots]
    exact hreports.trans hreports'.symm

/-- **Strategies side by side give what they give one after the other.** However the additional
strategies take turns, at most `limit` of them at a time, their run comes to an end, and not before
every slot is written; the outcome and the counters of an observer are then those of running them
in the order of registration. The same goes for running them one at a time in another order. The
outcome is an error when part of the input is missing or the primary strategy declines, fails or
breaks off, and otherwise the merge of what all strategies contribute. -/
theorem analyze_sideBySide (detector : Detector) (request : Request) (limit : Nat)
    (hlimit : 0 < limit) :
    (WellFounded fun next pool => Pool.Step request limit pool next) ∧
    (∀ pool, Pool.Steps request limit (.start detector.additional) pool →
      (pool.Finished ∨ ∃ next, Pool.Step request limit pool next) ∧
      (pool.Finished →
        SameOutcome (detector.analyzeWith (fun _ _ => pool.slots) request)
          (detector.analyze request))) ∧
    (∀ order : List Nat, order.Perm (List.range detector.additional.length) →
      SameOutcome (detector.analyzeInOrder order request) (detector.analyze request)) ∧
    ((∃ error, (detector.analyze request).value = .error error) ↔ detector.Fails request) ∧
    (¬detector.Fails request →
      (detector.analyze request).value = .ok (detector.merged request)) := by
  refine ⟨Pool.wellFounded_step request limit, fun pool hsteps => ?_, fun order horder => ?_,
    exists_error_analyze_iff, value_analyze_of_succeeds⟩
  · exact ⟨Pool.finished_or_exists_step hlimit pool,
      fun hfinished => sameOutcome_of_finished hsteps hfinished rfl⟩
  · obtain ⟨pool, hsteps, hfinished, hslots⟩ :=
      Pool.exists_finished_fillSlots hlimit detector.additional request horder
    exact sameOutcome_of_finished hsteps hfinished hslots.symm

/-- A strategy that takes every request and ends in the given way. -/
def endingWith (name : Text) (outcome : Outcome) : Strategy where
  name := name
  accepts := fun _ => true
  analyze := fun _ => outcome

/-- A detector with an additional strategy that breaks off and one that finds a gap. -/
def brokenAndFinder : Detector where
  config := {}
  primary := endingWith "primary" (.found (.ofGaps [{ testName := "login" }]))
  additional := [
    endingWith "broken" (.failed (.panicked "no rules")),
    endingWith "finder" (.found (.ofGaps [{ testName := "login" }, { testName := "logout" }]))]
  catalog := ⟨[]⟩
  registry := ⟨∅⟩

def emptyReports : Request where
  intent? := some { testIntents? := some [] }
  taint? := some { vulnerabilities? := some [] }

/-- The additional strategies report in the order opposite to that of their registration. -/
theorem brokenAndFinder_sideBySide :
    ∃ pool, Pool.Steps emptyReports 2 (.start brokenAndFinder.additional) pool ∧ pool.Finished ∧
      pool.slots.observations = [.strategy "finder" true, .strategy "broken" false] ∧
      SameOutcome (brokenAndFinder.analyzeWith (fun _ _ => pool.slots) emptyReports)
        (brokenAndFinder.analyze emptyReports) := by
  obtain ⟨pool, hrun, hfinished, hobservations⟩ := Pool.exists_steps_second_first emptyReports
    (endingWith "broken" (.failed (.panicked "no rules")))
    (endingWith "finder" (.found (.ofGaps [{ testName := "login" }, { testName := "logout" }])))
  have h := analyze_sideBySide brokenAndFinder emptyReports 2 (by decide)
  exact ⟨pool, hrun, hfinished, hobservations, (h.2.1 pool hrun).2 hfinished⟩

end Detector

end Shortfall.Gap
