import Mathlib.Data.List.Perm.Basic
import Shortfall.Metrics
import Shortfall.Proofs.Collections

/-!
# Counters do not see order

Counting an observation adds to some counters, and additions commute. The one counter that is more
than a number is the tally of each strategy, kept in a map by name: two runs of different strategies
touch different entries, and two runs of the same strategy add to the same one. So the counters
after a list of observations are those after any rearrangement of it (`observeAll_eq_of_perm`).
-/

namespace Shortfall

/-- The tally with one more run. -/
def StrategyTally.add (tally : StrategyTally) (succeeded : Bool) : StrategyTally where
  succeeded := if succeeded then tally.succeeded + 1 else tally.succeeded
  failed := if succeeded then tally.failed else tally.failed + 1
  timed := tally.timed + 1

private theorem StrategyTally.add_add_comm (tally : StrategyTally) (first second : Bool) :
    (tally.add first).add second = (tally.add second).add first := by
  cases first <;> cases second <;> rfl

namespace Metrics

theorem addRun_eq (metrics : Metrics) (strategy : Text) (succeeded : Bool) :
    metrics.addRun strategy succeeded =
      { metrics with
        strategies := metrics.strategies.insert strategy
          (((metrics.strategies.get? strategy).getD {}).add succeeded) } := by
  cases succeeded <;> rfl

private theorem addRun_addRun_comm (metrics : Metrics) (strategy other : Text)
    (first second : Bool) : (metrics.addRun strategy first).addRun other second =
      (metrics.addRun other second).addRun strategy first := by
  simp only [addRun_eq]
  congr 1
  apply NameMap.eq_of_get?_eq
  intro key
  by_cases hsame : other = strategy
  · subst hsame
    simp only [NameMap.get?_insert, if_true, Option.getD_some]
    rw [StrategyTally.add_add_comm]
    split <;> rfl
  · have hsame' : strategy ≠ other := fun h => hsame h.symm
    simp only [NameMap.get?_insert, hsame, hsame', if_false]
    by_cases hkey : key = other
    · subst hkey
      simp [hsame]
    · simp [hkey]

theorem addEnding_addEnding_comm (metrics : Metrics) (first second : Ending) :
    (metrics.addEnding first).addEnding second = (metrics.addEnding second).addEnding first := by
  cases first <;> cases second <;> rfl

theorem addSummary_addEnding_comm (metrics : Metrics) (summary : Gap.Summary) (ending : Ending) :
    (metrics.addSummary summary).addEnding ending =
      (metrics.addEnding ending).addSummary summary := by
  cases ending <;> rfl

private theorem addSummary_addSummary_comm (metrics : Metrics) (first second : Gap.Summary) :
    (metrics.addSummary first).addSummary second =
      (metrics.addSummary second).addSummary first := by
  simp only [addSummary, Nat.add_right_comm]

theorem observe_observe_comm (metrics : Metrics) (first second : Gap.Observation) :
    (metrics.observe first).observe second = (metrics.observe second).observe first := by
  -- Runs and analyses are counted in different fields, so only two of a kind can meet.
  match first, second with
  | .strategy name succeeded, .strategy other succeeded' =>
      exact addRun_addRun_comm metrics name other succeeded succeeded'
  | .strategy _ _, .analysis (.ok _) => rfl
  | .strategy _ _, .analysis (.error error) =>
      simp only [observe]
      cases Ending.ofError error <;> rfl
  | .analysis (.ok _), .strategy _ _ => rfl
  | .analysis (.error error), .strategy _ _ =>
      simp only [observe]
      cases Ending.ofError error <;> rfl
  | .analysis (.ok summary), .analysis (.ok summary') =>
      simp only [observe]
      rw [addSummary_addEnding_comm, addSummary_addEnding_comm, addSummary_addSummary_comm]
  | .analysis (.ok summary), .analysis (.error error) =>
      simp only [observe]
      rw [addSummary_addEnding_comm, addEnding_addEnding_comm]
  | .analysis (.error error), .analysis (.ok summary) =>
      simp only [observe]
      rw [addSummary_addEnding_comm, addEnding_addEnding_comm]
  | .analysis (.error error), .analysis (.error error') =>
      exact addEnding_addEnding_comm metrics _ _

instance : RightCommutative observe := ⟨observe_observe_comm⟩

/-- **The counters do not depend on the order of what is observed.** -/
theorem observeAll_eq_of_perm (metrics : Metrics) {observations others : List Gap.Observation}
    (h : observations.Perm others) :
    metrics.observeAll observations = metrics.observeAll others :=
  h.foldl_eq metrics

/-- A recorder counts all observations, or it breaks off at a name that is no label. -/
theorem recordAll?_eq (metrics : Metrics) (observations : List Gap.Observation) :
    metrics.recordAll? observations =
      if observations.all takes then some (metrics.observeAll observations) else none := by
  induction observations generalizing metrics with
  | nil => rfl
  | cons observation rest ih =>
      rw [recordAll?, List.foldlM_cons, List.all_cons, record?]
      cases takes observation with
      | false => rfl
      | true => exact ih (metrics.observe observation)

end Metrics

end Shortfall
