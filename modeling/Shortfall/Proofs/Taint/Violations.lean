import Mathlib.Data.List.Forall2
import Shortfall.Proofs.Taint.FlowViolation
import Shortfall.Proofs.Taint.Reachable

/-!
# What the violations of a state report

The violations are computed from a provenance and a level that stand in different maps, and from a
log. Read by itself the computation has cases for flows of data that is not quite tainted, and for
advisories that name no variable. None of them arises: a level is one of three, and an advisory was
noted by an assertion whose expression was tainted, so that it named a variable.

Where an advisory comes from cannot be seen in the state it is found in, as variables may have been
written since. `Reachable.noted` follows it back to the state in which the assertion was read.

## Main results

* `culprits_flowViolations_ascend`, `mem_culprits_flowViolations_iff`: the variables that flows are
  reported for, once each and in order.
* `Reachable.noted`: the assertion that an advisory comes from.
* `violations_exact`: what is reported, and in which order.
-/

namespace Shortfall.Taint

/-- A violation that reports the flow of a tainted variable, as grave as its first source. -/
structure Violation.ReportsFlow (violation : Violation) (σ : State) : Prop where
  kind : violation.kind = .unsanitizedFlow
  level : violation.level = .tainted
  severity : violation.severity =
    if (σ.provenance violation.culprit).primarySource = Source.userInput then .critical else .high
  provenance : violation.provenance? = some (σ.provenance violation.culprit)

/-- A violation that reports an assertion which accepted tainted data in the given state. It blames
the least of the variables that the assertion refers to. -/
structure Violation.ReportsAssertion (violation : Violation) (σ : State) (stmt : Statement) :
    Prop where
  kind : violation.kind = .unsafeAssertion
  severity : violation.severity = .high
  level : violation.level = .tainted
  culprit_ne_nil : violation.culprit ≠ []
  culprit_mem : violation.culprit ∈ (σ.read stmt.expression).names
  culprit_least : ∀ name ∈ (σ.read stmt.expression).names,
    violation.culprit = name ∨ violation.culprit < name

private theorem flowSeverity_tainted (provenance : Provenance) :
    flowSeverity provenance .tainted =
      if provenance.primarySource = Source.userInput then .critical else .high := by
  unfold flowSeverity
  by_cases hsource : provenance.primarySource = Source.userInput
  · simp [hsource]
  · rw [if_neg hsource]
    simp [hsource, Level.atLeast]

namespace State

variable {σ : State}

/-! ## Flows -/

theorem culprits_flowViolations_ascend (σ : State) :
    Ascends (σ.flowViolations.map (·.culprit)) := by
  have hkeys : σ.provenances.entries.Pairwise fun entry other => entry.1 < other.1 :=
    σ.provenances.ascend
  rw [Ascends, List.pairwise_map, flowViolations, List.pairwise_filterMap]
  refine hkeys.imp fun {entry other} hlt violation hviolation later hlater => ?_
  obtain ⟨_, _, _, _, rfl⟩ := flowViolation?_eq_some_iff.mp hviolation
  obtain ⟨_, _, _, _, rfl⟩ := flowViolation?_eq_some_iff.mp hlater
  exact hlt

namespace WellFormed

theorem atLeast_tainted_iff (h : σ.WellFormed) {name : Text} :
    (σ.level name).atLeast .tainted = true ↔ σ.level name = .tainted := by
  rw [Level.atLeast_tainted_iff, h.clamped.clamp_level]

theorem mem_culprits_flowViolations_iff (h : σ.WellFormed) {name : Text} :
    name ∈ σ.flowViolations.map (·.culprit) ↔
      σ.tracks name = true ∧ σ.level name = .tainted ∧ (σ.provenance name).sinks ≠ [] := by
  have hflags : name ∈ σ.flowViolations.map (·.culprit) ↔ σ.Flags name := by
    simp only [List.mem_map, ← mem_violations_and_flow_iff, Flags, and_assoc]
  rw [hflags, flags_iff, h.atLeast_tainted_iff]
  constructor
  · intro hboth
    refine ⟨?_, hboth⟩
    -- A variable that is not tracked is untainted.
    by_contra huntracked
    rw [level_of_not_tracks (Bool.eq_false_iff.mpr huntracked)] at hboth
    exact absurd hboth.1 (by decide)
  · exact And.right

private theorem reportsFlow (h : σ.WellFormed) {violation : Violation}
    (hviolation : violation ∈ σ.flowViolations) : violation.ReportsFlow σ := by
  obtain ⟨name, provenance, sink, rest, hget, _, htainted, rfl⟩ :=
    mem_flowViolations_iff.mp hviolation
  have hlevel : σ.level name = .tainted := h.atLeast_tainted_iff.mp htainted
  have hprovenance : σ.provenance name = provenance := by
    rw [State.provenance, hget, Option.getD_some]
  refine ⟨rfl, hlevel, ?_, congrArg some hprovenance.symm⟩
  show flowSeverity provenance (σ.level name) =
    if (σ.provenance name).primarySource = Source.userInput then .critical else .high
  rw [hlevel, hprovenance]
  exact flowSeverity_tainted provenance

end WellFormed

/-! ## Assertions -/

/-- A statement of a run leads from one state that can arise to another. -/
theorem Reachable.step (h : σ.Reachable) (stmt : Statement) : (σ.step stmt).Reachable :=
  h.run [stmt]

/-- The advisories were all noted by statements executed in states that can arise. -/
def Noted (advisories : List Advisory) : Prop :=
  ∀ advisory ∈ advisories,
    ∃ τ : State, τ.Reachable ∧ ∃ stmt, τ.advisory? stmt = some advisory

private theorem Noted.append_advisory? {advisories : List Advisory} (h : Noted advisories)
    (hσ : σ.Reachable) (stmt : Statement) : Noted (advisories ++ (σ.advisory? stmt).toList) := by
  intro advisory hmem
  rcases List.mem_append.mp hmem with hold | hnew
  · exact h advisory hold
  · exact ⟨σ, hσ, stmt, Option.mem_toList.mp hnew⟩

theorem Noted.run (h : Noted σ.advisories) (hσ : σ.Reachable) (stmts : List Statement) :
    Noted (σ.run stmts).advisories := by
  induction stmts generalizing σ with
  | nil => exact h
  | cons stmt rest ih =>
      refine ih ?_ (hσ.step stmt)
      rw [advisories_step]
      exact h.append_advisory? hσ stmt

/-- **Every advisory comes from an assertion** that was read in a state that can arise. -/
theorem Reachable.noted (h : σ.Reachable) : Noted σ.advisories := by
  induction h with
  | empty =>
      intro advisory hadvisory
      cases hadvisory
  | write _ _ _ _ ih => exact ih
  | transfer hσ stmt input ih =>
      rw [advisories_transfer]
      exact ih.append_advisory? hσ stmt
  | run hσ stmts ih => exact ih.run hσ stmts
  | copy _ ih =>
      rw [copy_eq]
      exact ih
  | clear _ _ =>
      intro advisory hadvisory
      cases hadvisory

/-- The advisory of an assertion is reported with the least variable of its expression. -/
theorem reportsAssertion_ofAdvisory {stmt : Statement} {advisory : Advisory}
    (h : σ.advisory? stmt = some advisory) :
    (Violation.ofAdvisory advisory).ReportsAssertion σ stmt := by
  have hagrees := agreesWith_of_advisory? h
  obtain ⟨first, rest, hnames⟩ := List.exists_cons_of_ne_nil hagrees.ne_nil
  have hculprit : (Violation.ofAdvisory advisory).culprit = first := by
    rw [Violation.ofAdvisory, hnames, List.headD_cons]
  have hread : (σ.read stmt.expression).names = first :: rest := by
    rw [← hnames]
    rw [advisory?_eq] at h
    split at h
    · cases h
      rfl
    · cases h
  refine ⟨rfl, rfl, hagrees.level, ?_, ?_, fun name hname => ?_⟩
  · rw [hculprit]
    exact ne_nil_of_mem_read (by rw [hread]; exact List.mem_cons_self)
  · rw [hculprit, hread]
    exact List.mem_cons_self
  · have hascends := ascends_names_read σ stmt.expression
    rw [hread] at hascends hname
    rw [hculprit]
    rcases List.mem_cons.mp hname with heq | hlater
    · exact .inl heq.symm
    · exact .inr (List.rel_of_pairwise_cons hascends hlater)

/-- **What is reported of a state that can arise.** First come flows of tainted data, strictly by
the name of the variable: one for each tracked variable that is tainted and has a sink, none for any
other, critical when the first source is user input and high otherwise. Behind them the advisories
are reported in the order they were noted, one by one: an assertion that expected no rejection of
what was tainted when it was read, as high, with the least variable that it refers to. -/
theorem violations_exact {σ : State} (h : σ.Reachable) :
    ∃ flows assertions, σ.violations = flows ++ assertions ∧
      (∀ violation ∈ flows, violation.ReportsFlow σ) ∧
      (flows.map (·.culprit)).Pairwise (· < ·) ∧
      (∀ name, name ∈ flows.map (·.culprit) ↔
        σ.tracks name = true ∧ σ.level name = .tainted ∧ (σ.provenance name).sinks ≠ []) ∧
      List.Forall₂ (fun advisory violation =>
        ∃ (τ : State) (stmt : Statement), τ.Reachable ∧
          stmt.kind = .assertion ∧ stmt.negative = false ∧
          (τ.read stmt.expression).level = .tainted ∧
          advisory = { expression := stmt.expression
                       variableNames := (τ.read stmt.expression).names
                       level := .tainted } ∧
          violation.ReportsAssertion τ stmt) σ.advisories assertions := by
  have hwf := h.wellFormed
  refine ⟨σ.flowViolations, σ.advisories.map .ofAdvisory, violations_eq_append σ,
    fun violation hviolation => hwf.reportsFlow hviolation, culprits_flowViolations_ascend σ,
    fun name => hwf.mem_culprits_flowViolations_iff, ?_⟩
  rw [List.forall₂_map_right_iff, List.forall₂_same]
  intro advisory hadvisory
  obtain ⟨τ, hτ, stmt, hnoted⟩ := h.noted advisory hadvisory
  have hreports := reportsAssertion_ofAdvisory hnoted
  rw [advisory?_eq] at hnoted
  split at hnoted
  · next hguard =>
      exact ⟨τ, stmt, hτ, hguard.1, hguard.2.1, hguard.2.2, (Option.some.inj hnoted).symm, hreports⟩
  · cases hnoted

/-- User input is accepted by an assertion and overwritten afterwards. A value from a database goes
to a log. -/
def overwrittenInput : State :=
  let logged : Provenance := { sources := [Source.database], sinks := [{ name := "log" }] }
  (State.empty.write "y" ⟨7⟩ (some logged)).run [
    { kind := .userInput, target := "x" },
    { kind := .methodCall, method := "exec", args := ["x"], sink := "shell" },
    { kind := .assertion, expression := "y + x.id" },
    { kind := .assignment, target := "x", expression := "1" }]

theorem overwrittenInput_violations :
    overwrittenInput.Reachable ∧ overwrittenInput.level "x" = .untainted ∧
      (∃ violation ∈ overwrittenInput.violations, violation.culprit = "y" ∧
        violation.ReportsFlow overwrittenInput ∧ violation.severity = .high) ∧
      ∃ violation ∈ overwrittenInput.violations, ∃ (τ : State) (stmt : Statement), τ.Reachable ∧
        stmt.expression = "y + x.id" ∧ (τ.read stmt.expression).names = ["x", "y"] ∧
        violation.ReportsAssertion τ stmt := by
  have hreachable : overwrittenInput.Reachable := .run (.write .empty _ _ _) _
  obtain ⟨flows, assertions, hviolations, hflows, _, hculprits, hassertions⟩ :=
    violations_exact hreachable
  refine ⟨hreachable, by decide +kernel, ?_, ?_⟩
  · obtain ⟨violation, hmem, hculprit⟩ := List.mem_map.mp
      ((hculprits "y").mpr ⟨by decide +kernel, by decide +kernel, by decide +kernel⟩)
    have hreports := hflows violation hmem
    refine ⟨violation, hviolations ▸ List.mem_append_left assertions hmem, hculprit, hreports, ?_⟩
    rw [hreports.severity, hculprit]
    decide +kernel
  · have hadvisories : overwrittenInput.advisories =
        [{ expression := "y + x.id", variableNames := ["x", "y"], level := .tainted }] := by
      decide +kernel
    rw [hadvisories] at hassertions
    obtain ⟨violation, rest, ⟨τ, stmt, hτ, _, _, _, hadvisory, hreports⟩, _, rfl⟩ :=
      List.forall₂_cons_left_iff.mp hassertions
    refine ⟨violation, by simp [hviolations], τ, stmt, hτ, ?_, ?_, hreports⟩
    · exact (congrArg Advisory.expression hadvisory).symm
    · exact (congrArg Advisory.variableNames hadvisory).symm

end State

end Shortfall.Taint
