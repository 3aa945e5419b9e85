import Shortfall.Proofs.Collections
import Shortfall.Taint.Violation

/-!
# Who is flagged

The violations of a state are one list for two purposes: flows of tainted data, read off the two
maps, and then the advisories. The kind of a violation tells the two apart, so the flow violations
can be described by the variable they come from (`mem_violations_flow_iff`).
-/

namespace Shortfall.Taint.State

/-- The violations blame a variable for a flow into a sink. -/
def Flags (σ : State) (name : Text) : Prop :=
  ∃ violation ∈ σ.violations, violation.kind = .unsanitizedFlow ∧ violation.culprit = name

variable {σ : State}

/-- A variable amounts to a violation when it is tainted and a sink is in the given provenance. -/
theorem flowViolation?_eq_some_iff {name : Text} {provenance : Provenance}
    {violation : Violation} :
    σ.flowViolation? name provenance = some violation ↔
      ∃ sink rest, provenance.sinks = sink :: rest ∧ (σ.level name).atLeast .tainted = true ∧
        violation = .ofFlow name (σ.level name) provenance sink := by
  unfold flowViolation?
  cases hsinks : provenance.sinks with
  | nil => simp
  | cons sink rest =>
      by_cases htainted : (σ.level name).atLeast .tainted = true
      · simp [htainted, eq_comm]
      · simp [htainted]

/-- The part of the violations that is read off the two maps. -/
def flowViolations (σ : State) : List Violation :=
  σ.provenances.entries.filterMap fun entry => σ.flowViolation? entry.1 entry.2

theorem violations_eq_append (σ : State) :
    σ.violations = σ.flowViolations ++ σ.advisories.map .ofAdvisory := rfl

/-- Flows are reported of the tainted variables with a sink in their provenance. -/
theorem mem_flowViolations_iff {violation : Violation} :
    violation ∈ σ.flowViolations ↔
      ∃ name provenance sink rest, σ.provenances.get? name = some provenance ∧
        provenance.sinks = sink :: rest ∧ (σ.level name).atLeast .tainted = true ∧
        violation = .ofFlow name (σ.level name) provenance sink := by
  simp only [flowViolations, List.mem_filterMap, Prod.exists, flowViolation?_eq_some_iff,
    NameMap.mem_entries_iff, exists_and_left]

/-- The violations of this kind are the flows. -/
theorem mem_violations_and_flow_iff {violation : Violation} :
    violation ∈ σ.violations ∧ violation.kind = .unsanitizedFlow ↔
      violation ∈ σ.flowViolations := by
  rw [violations_eq_append, List.mem_append]
  constructor
  · intro h
    refine h.1.resolve_right fun hadvisory => ?_
    obtain ⟨advisory, _, rfl⟩ := List.mem_map.mp hadvisory
    have hne : ViolationKind.unsafeAssertion ≠ ViolationKind.unsanitizedFlow := by decide
    exact hne h.2
  · intro hflow
    refine ⟨.inl hflow, ?_⟩
    obtain ⟨_, _, _, _, _, _, _, rfl⟩ := mem_flowViolations_iff.mp hflow
    rfl

/-- The flow violations are those of the tainted variables with a sink in their provenance. -/
theorem mem_violations_flow_iff {violation : Violation} :
    violation ∈ σ.violations ∧ violation.kind = .unsanitizedFlow ↔
      ∃ name provenance sink rest, σ.provenances.get? name = some provenance ∧
        provenance.sinks = sink :: rest ∧ (σ.level name).atLeast .tainted = true ∧
        violation = .ofFlow name (σ.level name) provenance sink :=
  mem_violations_and_flow_iff.trans mem_flowViolations_iff

/-- A variable is flagged when it is tainted and has a sink in its provenance. -/
theorem flags_iff {name : Text} :
    σ.Flags name ↔ (σ.level name).atLeast .tainted = true ∧ (σ.provenance name).sinks ≠ [] := by
  constructor
  · rintro ⟨violation, hmem, hkind, rfl⟩
    obtain ⟨name, provenance, sink, rest, hget, hsinks, htainted, rfl⟩ :=
      mem_violations_flow_iff.mp ⟨hmem, hkind⟩
    refine ⟨htainted, ?_⟩
    show (σ.provenance name).sinks ≠ []
    rw [State.provenance, hget, Option.getD_some, hsinks]
    exact List.cons_ne_nil sink rest
  · rintro ⟨htainted, hsinks⟩
    cases hget : σ.provenances.get? name with
    | none =>
        rw [State.provenance, hget] at hsinks
        exact absurd rfl hsinks
    | some provenance =>
        rw [State.provenance, hget, Option.getD_some] at hsinks
        obtain ⟨sink, rest, hsinks⟩ := List.exists_cons_of_ne_nil hsinks
        obtain ⟨hmem, hkind⟩ := mem_violations_flow_iff.mpr
          ⟨name, provenance, sink, rest, hget, hsinks, htainted, rfl⟩
        exact ⟨_, hmem, hkind, rfl⟩

end Shortfall.Taint.State
