import Shortfall.Metrics
import Shortfall.Proofs.Collections
import Shortfall.Proofs.Gap.Description

/-!
# Reading counters off the series

The counters are shown as series, each of a family and with labels of its own. Series of events
appear with their first event, so one that is missing stands for zero. `reading` looks a series up
as whoever collects them does, and what it finds is the counter (`reading_counter`).
-/

namespace Shortfall.Metrics

/-- The count of the series of a family that has the given labels. -/
def reading (metrics : Metrics) (family : Text) (labels : List (Text × Text)) : Nat :=
  ((metrics.series.find? fun series => series.family = family ∧ series.labels = labels).map
    (·.count)).getD 0

/-- The tally of a strategy; one that was never run has an empty one. -/
def tally (metrics : Metrics) (strategy : Text) : StrategyTally :=
  (metrics.strategies.get? strategy).getD {}

/-! ## Counters -/

/-- What is counted of analyses and strategies. -/
inductive Counter where
  | analyses (ending : Ending)
  | gaps (risk : Gap.Risk) (hscale : risk ∈ Gap.Risk.scale)
  | durations (strategy : Text)
  | failures (strategy : Text)
  | successes (strategy : Text)

namespace Counter

def family : Counter → Text
  | analyses _ => "analysis_runs_total"
  | gaps _ _ => "gaps_total"
  | durations _ => "strategy_duration_seconds"
  | failures _ | successes _ => "strategy_runs_total"

def labels : Counter → List (Text × Text)
  | analyses ending => [("outcome", ending.name)]
  | gaps risk _ => [("risk_level", risk.name)]
  | durations strategy => [("strategy", strategy)]
  | failures strategy => [("outcome", "failure"), ("strategy", strategy)]
  | successes strategy => [("outcome", "success"), ("strategy", strategy)]

/-- The value of a counter. -/
def count (metrics : Metrics) : Counter → Nat
  | analyses .success => metrics.successes
  | analyses .invalid => metrics.invalid
  | analyses .failure => metrics.failures
  | gaps risk _ => metrics.gaps risk
  | durations strategy => (metrics.tally strategy).timed
  | failures strategy => (metrics.tally strategy).failed
  | successes strategy => (metrics.tally strategy).succeeded

def series (metrics : Metrics) (counter : Counter) : Series where
  family := counter.family
  labels := counter.labels
  count := counter.count metrics

/-- Counters are told apart by family and labels. -/
theorem eq_of_same {counter other : Counter} (hfamily : counter.family = other.family)
    (hlabels : counter.labels = other.labels) : counter = other := by
  have hending : ∀ ending other : Ending, ending.name = other.name → ending = other := by
    intro ending other
    cases ending <;> cases other <;> decide
  cases counter <;> cases other
  all_goals simp only [family] at hfamily
  all_goals try exact absurd hfamily (by decide)
  all_goals simp only [labels, List.cons.injEq, Prod.mk.injEq, true_and, and_true] at hlabels
  case analyses.analyses => rw [hending _ _ hlabels]
  case gaps.gaps hscale _ hscale' => simp only [Gap.Risk.name_injOn_scale hscale hscale' hlabels]
  case failures.successes => exact absurd hlabels.1 (by decide)
  case successes.failures => exact absurd hlabels.1 (by decide)
  all_goals rw [hlabels]

end Counter

variable {metrics : Metrics} {shown : Series}

/-! ## The series there are -/

theorem mem_ofEvents {family : Text} {labels : List (Text × Text)} {count : Nat} :
    shown ∈ Series.ofEvents family labels count ↔ count ≠ 0 ∧ shown = ⟨family, labels, count⟩ := by
  rw [Series.ofEvents]
  split
  · next hzero => simp [hzero]
  · next hsome => simp [hsome]

/-- The series that count something of each tally. -/
theorem mem_flatMap_tallies {family : Text} (labels : Text → List (Text × Text))
    (part : StrategyTally → Nat) (hempty : part {} = 0) :
    (shown ∈ metrics.strategies.entries.flatMap fun entry =>
      Series.ofEvents family (labels entry.1) (part entry.2)) ↔
    ∃ name, part (metrics.tally name) ≠ 0 ∧
      shown = ⟨family, labels name, part (metrics.tally name)⟩ := by
  simp only [List.mem_flatMap, mem_ofEvents]
  constructor
  · rintro ⟨⟨name, tally⟩, hentry, hsome, rfl⟩
    rw [NameMap.mem_entries_iff] at hentry
    have htally : metrics.tally name = tally := by rw [Metrics.tally, hentry, Option.getD_some]
    exact ⟨name, by rwa [htally], by rw [htally]⟩
  · rintro ⟨name, hsome, rfl⟩
    cases hget : metrics.strategies.get? name with
    | none => exact absurd (by rw [tally, hget, Option.getD_none, hempty]) hsome
    | some found =>
        have htally : metrics.tally name = found := by rw [tally, hget, Option.getD_some]
        rw [htally] at hsome ⊢
        exact ⟨(name, found), NameMap.mem_entries_iff.mpr hget, hsome, rfl⟩

theorem mem_durations : shown ∈ metrics.durations ↔
    ∃ name, (metrics.tally name).timed ≠ 0 ∧
      shown = (Counter.durations name).series metrics :=
  mem_flatMap_tallies (fun name => [("strategy", name)]) (·.timed) rfl

theorem mem_strategyRuns : shown ∈ metrics.strategyRuns ↔
    (∃ name, (metrics.tally name).failed ≠ 0 ∧ shown = (Counter.failures name).series metrics) ∨
    ∃ name, (metrics.tally name).succeeded ≠ 0 ∧
      shown = (Counter.successes name).series metrics :=
  List.mem_append.trans (or_congr
    (mem_flatMap_tallies (fun name => [("outcome", "failure"), ("strategy", name)]) (·.failed) rfl)
    (mem_flatMap_tallies (fun name => [("outcome", "success"), ("strategy", name)]) (·.succeeded)
      rfl))

private theorem counter_of_mem_series (h : shown ∈ metrics.series) :
    (∃ counter : Counter, shown = counter.series metrics) ∨ shown = metrics.violationCount := by
  simp only [series, List.mem_append, mem_durations, mem_strategyRuns, List.mem_singleton] at h
  rcases h with (((h | h) | ⟨name, _, rfl⟩) | ⟨name, _, rfl⟩ | ⟨name, _, rfl⟩) | rfl
  · simp only [analysisRuns, List.map_cons, List.map_nil, List.mem_cons, List.not_mem_nil,
      or_false] at h
    rcases h with rfl | rfl | rfl
    · exact .inl ⟨.analyses .failure, rfl⟩
    · exact .inl ⟨.analyses .invalid, rfl⟩
    · exact .inl ⟨.analyses .success, rfl⟩
  · simp only [gapCounts, List.mem_map] at h
    obtain ⟨risk, hrisk, rfl⟩ := h
    have hscale : risk ∈ Gap.Risk.scale := by
      simp only [Gap.Risk.scale, List.mem_cons, List.not_mem_nil, or_false] at hrisk ⊢
      tauto
    exact .inl ⟨.gaps risk hscale, rfl⟩
  · exact .inl ⟨_, rfl⟩
  · exact .inl ⟨_, rfl⟩
  · exact .inl ⟨_, rfl⟩
  · exact .inr rfl

/-- A counter that has counted something is shown. -/
theorem series_mem_of_ne_zero {counter : Counter} (h : counter.count metrics ≠ 0) :
    counter.series metrics ∈ metrics.series := by
  simp only [series, List.mem_append, mem_durations, mem_strategyRuns]
  cases counter with
  | analyses ending => cases ending <;> simp [analysisRuns, Counter.series, Counter.family,
      Counter.labels, Counter.count, Ending.name]
  | gaps risk hscale =>
      refine .inl (.inl (.inl (.inr (List.mem_map.mpr ⟨risk, ?_, rfl⟩))))
      simp only [Gap.Risk.scale, List.mem_cons, List.not_mem_nil, or_false] at hscale ⊢
      tauto
  | durations name => exact .inl (.inl (.inr ⟨name, h, rfl⟩))
  | failures name => exact .inl (.inr (.inl ⟨name, h, rfl⟩))
  | successes name => exact .inl (.inr (.inr ⟨name, h, rfl⟩))

/-- **What is read is what was counted.** -/
theorem reading_counter (metrics : Metrics) (counter : Counter) :
    metrics.reading counter.family counter.labels = counter.count metrics := by
  rw [reading]
  cases hfind : metrics.series.find? fun series =>
      series.family = counter.family ∧ series.labels = counter.labels with
  | none =>
      by_contra hne
      have hmem : counter.series metrics ∈ metrics.series :=
        series_mem_of_ne_zero fun hzero => hne hzero.symm
      exact absurd (decide_eq_true ⟨rfl, rfl⟩) (List.find?_eq_none.mp hfind _ hmem)
  | some found =>
      have hsame := List.find?_some hfind
      simp only [decide_eq_true_eq] at hsame
      rcases counter_of_mem_series (List.mem_of_find?_eq_some hfind) with ⟨other, rfl⟩ | rfl
      · rw [Counter.eq_of_same hsame.1 hsame.2]
        rfl
      · -- The violations are of a family of their own.
        have hother : metrics.violationCount.labels ≠ counter.labels := by
          cases counter <;> simp [violationCount, Counter.labels]
        exact absurd hsame.2 hother

end Shortfall.Metrics
